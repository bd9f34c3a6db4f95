/-
What operations compute on integers.

`Operation.wrapped?` says what the result is in a width: that on unbounded integers, wrapped into
the width. Operations themselves put both operands into the form of the output, compute in 64-bit
words whatever the width, and put the words into the form again. That it comes to the same
(`Operation.apply_int`) is a matter of remainders: 64 bits wrap to a number that leaves the same
in a smaller width.

So the integers of the results are computed, row by row, from those that the operands are cast to
(`operate_of_reachable`). No rows keep an operation from an answer, the least integer divided by minus
one included; only results that there is no room for do.
-/
import Columnar.Proofs.Evaluating

namespace Columnar

open Primitive

/-! ## What is to be computed -/

namespace Operation

/-- The operations on integers. -/
def integral : List Operation := [.add, .sub, .mul, .div, .mod, .rsub, .rdiv, .rmod]

/-- The result on unbounded integers. Quotients go toward zero, remainders have the sign of the
dividend, and there are none for a zero divisor. -/
def unbounded? (op : Operation) (x y : Int) : Option Int :=
  match op with
  | .add => some (x + y)
  | .sub => some (x - y)
  | .mul => some (x * y)
  | .div => if y = 0 then none else some (x.tdiv y)
  | .mod => if y = 0 then none else some (x.tmod y)
  | .rsub => some (y - x)
  | .rdiv => if x = 0 then none else some (y.tdiv x)
  | .rmod => if x = 0 then none else some (y.tmod x)
  | _ => none

/-- The result in a width. -/
def wrapped? (op : Operation) (w : Width) (x y : Int) : Option Int :=
  (op.unbounded? x y).map (·.bmod (2 ^ w.bits))

end Operation

/-- The integer of a row, unless it is null. -/
def Row.integer (w : Width) (r : Row) : Option Int := if r.null then none else some (signed w r.cell)

/-- What an operation is to make of two rows of integers. -/
def Operation.wrappedRow? (op : Operation) (w : Width) (r r' : Row) : Option Int := do
  op.wrapped? w (← r.integer w) (← r'.integer w)

/-- That the rows of a column are what an operation is to make of those of two others. -/
def Column.Computed (c : Column) (op : Operation) (w : Width) (x y : Column) : Prop :=
  ∃ xs ys zs, x.Holds xs ∧ y.Holds ys ∧ c.Holds zs ∧
    zs.map (Row.integer w) = List.zipWith (op.wrappedRow? w) xs ys

/-! ## What is computed -/

namespace Number

theorem coerce_int (w : Width) (n : Number) : n.coerce (.int w) = .int (n.toInt.bmod (2 ^ w.bits)) :=
  congrArg Number.int (BitVec.toInt_ofInt _)

/-- **Words of 64 bits** are as good as unbounded integers, for what is left in a width. -/
theorem integerResult_bmod {op : Operation} (hop : op.unreversed? = none) (w : Width) {x y : Int}
    (hx : x.bmod (2 ^ Width.w64.bits) = x) (hy : y.bmod (2 ^ Width.w64.bits) = y) :
    (integerResult op x y).map (·.bmod (2 ^ w.bits)) = op.wrapped? w x y := by
  have hdvd := Nat.pow_dvd_pow 2 (show w.bits ≤ 64 by cases w <;> decide)
  have hx_word : (BitVec.ofInt 64 x).toInt = x := (BitVec.toInt_ofInt x).trans hx
  have hy_word : (BitVec.ofInt 64 y).toInt = y := (BitVec.toInt_ofInt y).trans hy
  have hzero : BitVec.ofInt 64 y = 0 ↔ y = 0 := by
    rw [← BitVec.toInt_inj, hy_word]
    rfl
  cases op with
  | add | sub | mul =>
    simp only [integerResult, wordResult, Operation.wrapped?, Operation.unbounded?, Option.map_some,
      BitVec.toInt_add, BitVec.toInt_sub, BitVec.toInt_mul, hx_word, hy_word, Int.bmod_bmod_of_dvd hdvd]
  | div | mod =>
    simp only [integerResult, wordResult, Operation.wrapped?, Operation.unbounded?, hzero]
    split
    · rfl
    · simp only [Option.map_some, BitVec.toInt_sdiv, BitVec.toInt_srem, hx_word, hy_word,
        Int.bmod_bmod_of_dvd hdvd]
  | rsub | rdiv | rtrueDiv | rfloorDiv | rmod | rpow => cases hop
  | _ => rfl

end Number

/-- The integers of a width are words. -/
theorem Primitive.bmod_word (w : Width) (n : Int) :
    (n.bmod (2 ^ w.bits)).bmod (2 ^ Width.w64.bits) = n.bmod (2 ^ w.bits) := by
  have hword : w.bytes ≤ Width.w64.bytes := by cases w <;> decide
  rw [← show (Number.int n).toInt = n from rfl, ← Number.signed_write]
  exact bmod_signed hword _

namespace Operation

variable {op forward : Operation}

theorem wrapped?_of_reversed (h : op.unreversed? = some forward) (w : Width) (x y : Int) :
    op.wrapped? w x y = forward.wrapped? w y x := by
  cases op <;> cases h <;> rfl

theorem forward_of_reversed (h : op.unreversed? = some forward) :
    forward.unreversed? = none ∧ (op ∈ integral → forward ∈ integral) := by
  cases op <;> cases h <;> decide

/-- An operation that is not reversed is carried out in words, on the operands in the width of
the output. -/
theorem applyForward_int (hop : op ∈ integral) (hforward : op.unreversed? = none) (w : Width)
    (a b : Number) : op.applyForward (.int w) a b =
      (Number.integerResult op (a.toInt.bmod (2 ^ w.bits)) (b.toInt.bmod (2 ^ w.bits))).map .int := by
  cases op with
  | add | sub | mul | div | mod =>
    simp only [applyForward, Number.coerce_int]
    rfl
  | rsub | rdiv | rmod => cases hforward
  | _ => exact absurd hop (by decide)

theorem applyForward_bmod (hop : op ∈ integral) (hforward : op.unreversed? = none) (w : Width)
    (a b : Number) : (op.applyForward (.int w) a b).map (fun n => n.toInt.bmod (2 ^ w.bits)) =
      op.wrapped? w (a.toInt.bmod (2 ^ w.bits)) (b.toInt.bmod (2 ^ w.bits)) := by
  rw [applyForward_int hop hforward, Option.map_map]
  exact Number.integerResult_bmod hforward w (bmod_word w _) (bmod_word w _)

/-- **An operation on integers** computes what it is to, of its operands in the width of the
output. -/
theorem apply_int (hop : op ∈ integral) (w : Width) (a b : Number) :
    (op.apply (.int w) a b).map (fun n => n.toInt.bmod (2 ^ w.bits)) =
      op.wrapped? w (a.toInt.bmod (2 ^ w.bits)) (b.toInt.bmod (2 ^ w.bits)) := by
  cases hreversed : op.unreversed? with
  | none =>
    simp only [apply, hreversed]
    exact applyForward_bmod hop hreversed w a b
  | some forward =>
    obtain ⟨hforward, hmem⟩ := forward_of_reversed hreversed
    simp only [apply, hreversed, wrapped?_of_reversed hreversed]
    exact applyForward_bmod (hmem hop) hforward w b a

end Operation

/-! ## Rows -/

variable {k k' out : Kind} {f g : Primitive} {w : Width}

/-- The integer of a cell in another form. -/
theorem Kind.signed_recast (hf : k.primitive? = some f) (hout : out.primitive? = some (.int w))
    (cell : Bytes) : signed w (k.recast out cell) = (Number.read f cell).toInt.bmod (2 ^ w.bits) := by
  by_cases hk : k = out
  · subst hk
    obtain rfl : f = .int w := Option.some.inj (hf.symm.trans hout)
    rw [Kind.recast_self, Number.read_int]
    exact (bmod_signed (Nat.le_refl _) cell).symm
  · rw [Kind.recast_of_forms hk hf hout, Number.signed_write]

theorem Row.integer_recast (hf : k.primitive? = some f) (hout : out.primitive? = some (.int w)) (r : Row) :
    (r.recast k out).integer w = (r.number f).map fun n => n.toInt.bmod (2 ^ w.bits) := by
  rw [integer, recast, number, Kind.signed_recast hf hout]
  cases r.null <;> rfl

theorem Row.integer_ofResult (w : Width) (result : Option Number) :
    (Row.ofResult (.int w) result).integer w = result.map fun n => n.toInt.bmod (2 ^ w.bits) := by
  cases result with
  | none => rfl
  | some n => exact congrArg some (Number.signed_write w n)

/-- **A row of results** is what is to be computed of the rows that the operands' rows are cast to. -/
theorem Row.integer_operate {op : Operation} (hop : op ∈ Operation.integral) (hf : k.primitive? = some f)
    (hg : k'.primitive? = some g) (hout : out.primitive? = some (.int w)) (r r' : Row) :
    (Row.operate op (.int w) f g r r').integer w =
      op.wrappedRow? w (r.recast k out) (r'.recast k' out) := by
  rw [operate, integer_ofResult, Operation.wrappedRow?, integer_recast hf hout, integer_recast hg hout]
  cases r.number f with
  | none => rfl
  | some a =>
    cases r'.number g with
    | none => rfl
    | some b => exact Operation.apply_int hop w a b

/-! ## Columns -/

/-- There is a rule between kinds of fixed width. -/
theorem Kind.castRule?_of_forms (hf : k.primitive? = some f) (hg : out.primitive? = some g) :
    ∃ rule, k.castRule? out = some rule := by
  refine Option.ne_none_iff_exists'.mp fun hnone => castRule?_eq_none.mp hnone (iff_of_false ?_ ?_)
  · rintro rfl
    cases hf
  · rintro rfl
    cases hg

/-- Kinds of integers are kinds of numbers or dates. -/
theorem Kind.arithmetic_of_int (h : k.primitive? = some (.int w)) : k.isNumeric ∨ k.isTemporal := by
  cases k with
  | int _ => exact .inl rfl
  | date => exact .inr rfl
  | _ => cases h

/-- An operation on integers can have an output of integers. -/
theorem Operation.requireOutput_of_integral {op : Operation} (hop : op ∈ integral)
    (hout : out.primitive? = some (.int w)) : op.requireOutput out = .ok () := by
  have hcomparison : op.isComparison = false := by
    cases op with
    | add | sub | mul | div | mod | rsub | rdiv | rmod => rfl
    | _ => exact absurd hop (by decide)
  rw [requireOutput, hcomparison]
  exact requireArithmetic_ok (Kind.arithmetic_of_int hout)

namespace Column

variable {op : Operation} {a b x y : Column}

/-- An operation on well-formed columns, row by row, with the rows that they are cast to. -/
theorem operate_cast {form : Primitive} (ha : a.WellFormed) (hb : b.WellFormed) (hrows : a.rows = b.rows)
    (hf : a.kind.primitive? = some f) (hg : b.kind.primitive? = some g) (hform : out.primitive? = some form)
    (hchecks : op.requireColumns out a.shape b.shape = .ok ())
    (hroom : Elements.reserved out a.rows ≤ maxSize) (hx : a.cast out = .ok x) (hy : b.cast out = .ok y) :
    ∃ as bs c, x.Holds (as.map (Row.recast a.kind out)) ∧ y.Holds (bs.map (Row.recast b.kind out)) ∧
      operate op out a b = .ok c ∧ c.rows = a.rows ∧
      c.Packed out (List.zipWith (Row.operate op form f g) as bs)
        ((a.payload.validity.isSome || b.payload.validity.isSome) ||
          (List.zipWith (Row.operate op form f g) as bs).any Row.null) := by
  obtain ⟨as, has⟩ := ha.holds
  obtain ⟨bs, hbs⟩ := hb.holds
  obtain ⟨rule, hrule⟩ := Kind.castRule?_of_forms hf hform
  obtain ⟨rule', hrule'⟩ := Kind.castRule?_of_forms hg hform
  obtain ⟨c, hc, hpacked⟩ := operate_rows has hbs hf hg hform hchecks hroom
  have hlength : as.length = bs.length := has.length.trans (hrows.trans hbs.length.symm)
  refine ⟨as, bs, c, has.recast hrule hx, hbs.recast hrule' hy, hc, ?_, hpacked⟩
  rw [← hpacked.length, List.length_zipWith, ← hlength, Nat.min_self, has.length]

/-- **An operation on columns of numbers** computes what it is to, of what they are cast to. -/
theorem operate_computed (hop : op ∈ Operation.integral) (ha : a.WellFormed) (hb : b.WellFormed)
    (hrows : a.rows = b.rows) (hf : a.kind.primitive? = some f) (hg : b.kind.primitive? = some g)
    (hout : out.primitive? = some (.int w)) (hchecks : op.requireColumns out a.shape b.shape = .ok ())
    (hroom : Elements.reserved out a.rows ≤ maxSize) (hx : a.cast out = .ok x) (hy : b.cast out = .ok y) :
    ∃ c, operate op out a b = .ok c ∧ c.WellFormed ∧ c.kind = out ∧ c.rows = a.rows ∧
      c.Computed op w x y := by
  obtain ⟨as, bs, c, hxs, hys, hc, hcount, hpacked⟩ :=
    operate_cast ha hb hrows hf hg hout hchecks hroom hx hy
  refine ⟨c, hc, hpacked.wellFormed, hpacked.kind, hcount, _, _, _, hxs, hys, hpacked.toHolds, ?_⟩
  rw [List.map_zipWith, List.zipWith_map]
  congr 1
  funext r r'
  exact Row.integer_operate hop hf hg hout r r'

end Column

/-! ## Every reachable session -/

open Columnar.Action

/-- **Arithmetic on integers wraps** in the width of its output. In every session that commands lead
to, an operation on two vectors of numbers or dates with as many rows stops where a device fails to
bring the data of one of them. Otherwise, if storage for all results can be set aside, it answers with
a new vector on the host: its rows are what is to be computed of those that the two columns are cast
to, null exactly where one of these is or where the divisor is zero. Nothing but want of storage is in
its way, and memory that holds the operands has room for the results. -/
theorem operate_of_reachable {s : Session} (hs : s.Reachable .unlimited) {l r : String} {a b : Column}
    (ha : s.shown? l = some a) (hb : s.shown? r = some b) (hk : a.kind.isNumeric ∨ a.kind.isTemporal)
    (hk' : b.kind.isNumeric ∨ b.kind.isTemporal) (hrows : a.rows = b.rows) {op : Operation}
    (hop : op ∈ Operation.integral) (hout : out.primitive? = some (.int w)) :
    ∃ x y, a.cast out = .ok x ∧ b.cast out = .ok y ∧
      (∀ stop s₁, (materialize r).exec s = (.error stop, s₁) →
        (operate op out l r).exec s = (.error stop, s₁)) ∧
      (∀ p s₁, (materialize r).exec s = (.ok p, s₁) →
        (∀ stop s₂, (materialize l).exec s₁ = (.error stop, s₂) →
          (operate op out l r).exec s = (.error stop, s₂)) ∧
        ∀ q s₂, (materialize l).exec s₁ = (.ok q, s₂) →
          (Elements.reserved out a.rows ≤ maxSize →
            ∃ (id : Nat) (s' : Session) (c : Column), (operate op out l r).exec s = (.ok id, s') ∧
              s'.storages.find? id = some ⟨c.shape, .host c.payload, 1⟩ ∧ c.WellFormed ∧ c.kind = out ∧
              c.rows = a.rows ∧ c.Computed op w x y) ∧
          (maxSize < Elements.reserved out a.rows →
            ((operate op out l r).exec s).1 = .error (.fault .outOfBounds))) ∧
      (a.InMemory → Elements.reserved out a.rows ≤ maxSize) := by
  have hsound := hs.sound invariant_wellFormed
  have ha_well := hsound.shown ha
  have hb_well := hsound.shown hb
  obtain ⟨as, has⟩ := ha_well.holds
  obtain ⟨bs, hbs⟩ := hb_well.holds
  obtain ⟨f, hf⟩ := Kind.primitive_of_arithmetic hk
  obtain ⟨g, hg⟩ := Kind.primitive_of_arithmetic hk'
  obtain ⟨rule, hrule⟩ := Kind.castRule?_of_forms hf hout
  obtain ⟨rule', hrule'⟩ := Kind.castRule?_of_forms hg hout
  obtain ⟨x, hx⟩ := Column.cast_ok ha_well.counted.suits hrule
  obtain ⟨y, hy⟩ := Column.cast_ok hb_well.counted.suits hrule'
  have hchecks : op.requireColumns out a.shape b.shape = .ok () :=
    Operation.requireColumns_ok hk hk' (Operation.requireOutput_of_integral hop hout) hrows
  refine ⟨x, y, hx, hy, fun stop s₁ hr => exec_operate_of_error hsound.coherent ha hb hchecks hr,
    fun p s₁ hr => ⟨fun stop s₂ hl => exec_operate_of_error_left hsound.coherent ha hb hchecks hr hl,
      fun q s₂ hl => ⟨fun hroom => ?_, fun hfull => ?_⟩⟩, fun hmemory => hmemory.reserved_le has hf hout⟩
  · obtain ⟨c, hc, hwell, hkind, hcount, hcomputed⟩ :=
      Column.operate_computed hop ha_well hb_well hrows hf hg hout hchecks hroom hx hy
    obtain ⟨id, s', hexec, hst⟩ := (exec_operate hsound ha hb hchecks hr hl).1 c hc
    exact ⟨id, s', c, hexec, hst, hwell, hkind, hcount, hcomputed⟩
  · exact (exec_operate hsound ha hb hchecks hr hl).2 .outOfBounds
      (Column.operate_outOfBounds has hbs hf hg hout hchecks hfull)

set_option maxRecDepth 4000 in
/-- Quotients of 16-bit integers and dates in eight bits: the least integer by minus one, one that
is in range, and one by zero. -/
theorem operate_of_dates :
    let s := (Session.run { config := none } [
      .make (.ofParts (.int .w16) 3 [0x80, 0xFF, 100, 0, 7, 0] none) "l",
      .make (.ofParts .date 3 [0xFF, 0xFF, 0xFF, 0xFF, 50, 0, 0, 0, 0, 0, 0, 0] none) "r"]).2
    s.Reachable .unlimited ∧ ∃ a b x y, s.shown? "l" = some a ∧ s.shown? "r" = some b ∧
      a.cast (.int .w8) = .ok x ∧ b.cast (.int .w8) = .ok y ∧
      ∃ (id : Nat) (s' : Session) (c : Column), (operate .div (.int .w8) "l" "r").exec s = (.ok id, s') ∧
        s'.storages.find? id = some ⟨c.shape, .host c.payload, 1⟩ ∧ c.Computed .div .w8 x y ∧
        c.payload.elements = .fixed [0x80, 2, 0] := by
  intro s
  have hs : s.Reachable .unlimited := by
    refine (Session.Reachable.start none).run ?_
    simp [Command.Within]
  have hl : s.shown? "l" = some ⟨.int .w16, 3, 0, ⟨.fixed [0x80, 0xFF, 100, 0, 7, 0], none⟩⟩ := rfl
  have hr : s.shown? "r" = some
      ⟨.date, 3, 0, ⟨.fixed [0xFF, 0xFF, 0xFF, 0xFF, 50, 0, 0, 0, 0, 0, 0, 0], none⟩⟩ := rfl
  have hout : (Kind.int .w8).primitive? = some (.int .w8) := rfl
  have hop : Operation.div ∈ Operation.integral := by decide
  obtain ⟨x, y, hx, hy, -, hbrought, -⟩ :=
    operate_of_reachable hs hl hr (.inl rfl) (.inr rfl) rfl hop hout
  obtain ⟨-, hanswer⟩ := hbrought _ s rfl
  obtain ⟨id, s', c, hexec, hst, -, -, -, hcomputed⟩ := (hanswer _ s rfl).1 (by decide)
  refine ⟨hs, _, _, x, y, hl, hr, hx, hy, id, s', c, hexec, hst, hcomputed, ?_⟩
  have hid : ((operate .div (.int .w8) "l" "r").exec s).1 = .ok 3 := rfl
  have hmade : ((operate .div (.int .w8) "l" "r").exec s).2.storages.find? 3 = some ⟨⟨.int .w8, 3, 1, true⟩,
      .host ⟨.fixed [0x80, 2, 0], some ⟨0xFB :: List.replicate 63 0xFF⟩⟩, 1⟩ := rfl
  rw [hexec] at hid hmade
  obtain rfl : id = 3 := Except.ok.inj hid
  obtain ⟨-, hplace, -⟩ := Storage.mk.inj (Option.some.inj (hst.symm.trans hmade))
  rw [Place.host.inj hplace]

end Columnar
