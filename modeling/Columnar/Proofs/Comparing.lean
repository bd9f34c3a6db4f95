/-
Comparisons of integers.

A comparison takes its operands as they are. Integers of whatever widths are decoded to integers
without bounds and compared as such, never as doubles, which would not tell `2 ^ 53` from its
successor; and the truth travels back through a number into one byte (`Row.operate_comparison`).
So with the operands swapped there is the mirrored comparison, column for column
(`Column.operate_mirrored`), and where a comparison holds its complement does not
(`Operation.comparedRow_complement`).
-/
import Columnar.Proofs.Computing
import Columnar.Proofs.Yielding

namespace Columnar

open Primitive

/-! ## Comparisons -/

namespace Operation

/-- What a comparison tells of two integers. -/
def compares (op : Operation) (x y : Int) : Bool :=
  match op with
  | equal => x = y
  | notEqual => x ≠ y
  | less => x < y
  | greater => x > y
  | lessEqual => x ≤ y
  | greaterEqual => x ≥ y
  | _ => false

/-- The comparison that holds just where one does with the operands swapped. -/
def mirrored : Operation → Operation
  | less => greater
  | greater => less
  | lessEqual => greaterEqual
  | greaterEqual => lessEqual
  | op => op

/-- The comparison that holds just where one does not. -/
def complement : Operation → Operation
  | equal => notEqual
  | notEqual => equal
  | less => greaterEqual
  | greaterEqual => less
  | greater => lessEqual
  | lessEqual => greater
  | op => op

/-- What a comparison is to make of two rows of integers: the truth as one byte, and zero in a null
row. -/
def comparedRow (op : Operation) (p q : Width) (r r' : Row) : Row :=
  if r.null || r'.null then ⟨true, [0]⟩
  else ⟨false, if op.compares (signed p r.cell) (signed q r'.cell) then [1] else [0]⟩

variable {op : Operation}

theorem compares_mirrored (op : Operation) (x y : Int) : op.mirrored.compares y x = op.compares x y := by
  cases op with
  | equal => exact decide_eq_decide.mpr eq_comm
  | notEqual => exact decide_eq_decide.mpr ne_comm
  | _ => rfl

theorem compares_complement (hop : op.isComparison) (x y : Int) :
    op.complement.compares x y = !op.compares x y := by
  cases op with
  | equal | notEqual | less | greater | lessEqual | greaterEqual =>
    simp only [complement, compares, ← decide_not, decide_eq_decide, ne_eq, Decidable.not_not] <;> omega
  | _ => cases hop

theorem isComparison_mirrored (hop : op.isComparison) : op.mirrored.isComparison := by
  cases op with
  | equal | notEqual | less | greater | lessEqual | greaterEqual => rfl
  | _ => cases hop

theorem isComparison_complement (hop : op.isComparison) : op.complement.isComparison := by
  cases op with
  | equal | notEqual | less | greater | lessEqual | greaterEqual => rfl
  | _ => cases hop

/-- **Integers are compared exactly.** -/
theorem holds_compare (hop : op.isComparison) (x y : Int) :
    op.holds (Number.compare (.int x) (.int y)) = op.compares x y := by
  cases op with
  | equal | notEqual | less | greater | lessEqual | greaterEqual =>
    refine Bool.eq_iff_iff.mpr ?_
    simp only [holds, compares, Number.compare, Bool.or_eq_true, beq_iff_eq, bne_iff_ne, ne_eq,
      Option.some.injEq, Int.compare_eq_eq, Int.compare_eq_lt, Int.compare_eq_gt, decide_eq_true_eq] <;> omega
  | _ => cases hop

theorem apply_comparison (hop : op.isComparison) (form : Primitive) (x y : Int) :
    op.apply form (.int x) (.int y) = some (.int (cond (op.compares x y) 1 0)) := by
  have hforward : op.unreversed? = none := by
    cases op with
    | equal | notEqual | less | greater | lessEqual | greaterEqual => rfl
    | _ => cases hop
  simp only [apply, hforward, applyForward, if_pos hop, holds_compare hop]

theorem requireOutput_comparison (hop : op.isComparison) : op.requireOutput .bool = .ok () := by
  rw [requireOutput, if_pos hop, if_pos rfl]

end Operation

/-! ## Rows -/

/-- The row with the other truth, unless it is null. -/
def Row.negated (r : Row) : Row := if r.null then r else ⟨false, r.cell.map (1 - ·)⟩

variable {op : Operation} {p q : Width}

/-- **A row of a comparison** is what it is to be. -/
theorem Row.operate_comparison (hop : op.isComparison) (r r' : Row) :
    Row.operate op .bool (.int p) (.int q) r r' = op.comparedRow p q r r' := by
  rw [operate, number, number, Operation.comparedRow, Number.read_int, Number.read_int]
  cases r.null with
  | true => rfl
  | false =>
    cases r'.null with
    | true => rfl
    | false =>
      have happly := Operation.apply_comparison hop .bool (signed p r.cell) (signed q r'.cell)
      cases hcompares : op.compares (signed p r.cell) (signed q r'.cell) with
      | true =>
        rw [hcompares] at happly
        exact congrArg (Row.ofResult .bool) happly
      | false =>
        rw [hcompares] at happly
        exact congrArg (Row.ofResult .bool) happly

namespace Operation

theorem comparedRow_mirrored (op : Operation) (p q : Width) (r r' : Row) :
    op.mirrored.comparedRow q p r' r = op.comparedRow p q r r' := by
  rw [comparedRow, comparedRow, Bool.or_comm, compares_mirrored]

/-- **A row of the complement** has the other truth. -/
theorem comparedRow_complement (hop : op.isComparison) (r r' : Row) :
    op.complement.comparedRow p q r r' = (op.comparedRow p q r r').negated := by
  rw [comparedRow, comparedRow, compares_complement hop]
  split
  · rfl
  · cases op.compares (signed p r.cell) (signed q r'.cell) <;> rfl

end Operation

/-! ## Columns -/

namespace Column

variable {a b c d : Column}

/-- That the rows of a column are what a comparison is to make of those of two others. -/
def Compared (c : Column) (op : Operation) (p q : Width) (a b : Column) : Prop :=
  ∃ as bs, a.Holds as ∧ b.Holds bs ∧ c.Holds (List.zipWith (op.comparedRow p q) as bs)

/-- That a column has the other truth in every row that is not null, and the same null rows. -/
def Negates (d c : Column) : Prop := ∃ rows, c.Holds rows ∧ d.Holds (rows.map Row.negated)

theorem requireColumns_comparison (hop : op.isComparison) (hf : a.kind.primitive? = some (.int p))
    (hg : b.kind.primitive? = some (.int q)) (hrows : a.rows = b.rows) :
    op.requireColumns .bool a.shape b.shape = .ok () :=
  Operation.requireColumns_ok (Kind.arithmetic_of_int hf) (Kind.arithmetic_of_int hg)
    (Operation.requireOutput_comparison hop) hrows

/-- **A comparison of columns of integers** makes the rows that it is to. -/
theorem operate_comparison (hop : op.isComparison) {as bs : List Row} (ha : a.Holds as) (hb : b.Holds bs)
    (hf : a.kind.primitive? = some (.int p)) (hg : b.kind.primitive? = some (.int q))
    (hrows : a.rows = b.rows) (hroom : Elements.reserved .bool a.rows ≤ maxSize) :
    ∃ c, operate op .bool a b = .ok c ∧
      c.Packed .bool (List.zipWith (op.comparedRow p q) as bs)
        ((a.payload.validity.isSome || b.payload.validity.isSome) ||
          (List.zipWith (op.comparedRow p q) as bs).any Row.null) := by
  have hrow : Row.operate op .bool (.int p) (.int q) = op.comparedRow p q := by
    funext r r'
    exact Row.operate_comparison hop r r'
  exact hrow ▸ operate_rows ha hb hf hg rfl (requireColumns_comparison hop hf hg hrows) hroom

/-- **The mirrored comparison** of columns swapped makes the same column. -/
theorem operate_mirrored (hop : op.isComparison) {as bs : List Row} (ha : a.Holds as) (hb : b.Holds bs)
    (hf : a.kind.primitive? = some (.int p)) (hg : b.kind.primitive? = some (.int q))
    (hrows : a.rows = b.rows) : operate op.mirrored .bool b a = operate op .bool a b := by
  have hmirrored := Operation.isComparison_mirrored hop
  rcases Nat.lt_or_ge maxSize (Elements.reserved .bool a.rows) with hfull | hroom
  · rw [operate_outOfBounds ha hb hf hg rfl (requireColumns_comparison hop hf hg hrows) hfull]
    exact operate_outOfBounds hb ha hg hf rfl (requireColumns_comparison hmirrored hg hf hrows.symm)
      (hrows ▸ hfull)
  · obtain ⟨c, hc, hpacked⟩ := operate_comparison hop ha hb hf hg hrows hroom
    obtain ⟨d, hd, hpacked'⟩ := operate_comparison hmirrored hb ha hg hf hrows.symm (hrows ▸ hroom)
    have hswapped : List.zipWith (op.mirrored.comparedRow q p) bs as =
        List.zipWith (op.comparedRow p q) as bs := by
      rw [List.zipWith_comm]
      congr 1
      funext r r'
      exact Operation.comparedRow_mirrored op p q r r'
    rw [hswapped, Bool.or_comm b.payload.validity.isSome] at hpacked'
    rw [hc, hd, hpacked'.eq hpacked]

/-- **The complement** of a comparison makes the other truth in every row. -/
theorem operate_complement (hop : op.isComparison) {as bs : List Row} (ha : a.Holds as) (hb : b.Holds bs)
    (hf : a.kind.primitive? = some (.int p)) (hg : b.kind.primitive? = some (.int q))
    (hrows : a.rows = b.rows) (hroom : Elements.reserved .bool a.rows ≤ maxSize)
    (hc : c.Holds (List.zipWith (op.comparedRow p q) as bs)) :
    ∃ d, operate op.complement .bool a b = .ok d ∧ d.Negates c := by
  obtain ⟨d, hd, hpacked⟩ :=
    operate_comparison (Operation.isComparison_complement hop) ha hb hf hg hrows hroom
  refine ⟨d, hd, _, hc, ?_⟩
  have hrow : op.complement.comparedRow p q = fun r r' => (op.comparedRow p q r r').negated := by
    funext r r'
    exact Operation.comparedRow_complement hop r r'
  rw [List.map_zipWith]
  exact hrow ▸ hpacked.toHolds

end Column

/-! ## Every reachable session -/

namespace Session

variable {s : Session} {l r w : String} {a b : Column}

/-- **Integers are compared exactly across kinds.** In every session that commands lead to, a
comparison of two vectors of integers or dates of whatever widths, with as many rows, yields the
result on their columns, unless a device fails to bring some data. The result has the truth of the
comparison of the two integers in every row where neither is null, as the byte one or zero, and is
null elsewhere. The mirrored comparison of the vectors swapped makes the same vector, and the
complement one with the other truth. There is a result on vectors in memory; they are well formed, as
all are. -/
theorem compare_integers (hs : s.Reachable .unlimited) (ha : s.shown? l = some a) (hb : s.shown? r = some b)
    (hf : a.kind.primitive? = some (.int p)) (hg : b.kind.primitive? = some (.int q))
    (hrows : a.rows = b.rows) (hop : op.isComparison) (hw : s.vectors.find? w = none) :
    s.Yields [.make (.operate op .bool l r) w] w (Column.operate op .bool a b) ∧
      s.Yields [.make (.operate op.mirrored .bool r l) w] w (Column.operate op .bool a b) ∧
      s.Yields [.make (.operate op.complement .bool l r) w] w (Column.operate op.complement .bool a b) ∧
      (∀ c, Column.operate op .bool a b = .ok c →
        c.kind = .bool ∧ c.rows = a.rows ∧ c.WellFormed ∧ c.Compared op p q a b ∧
          ∃ d, Column.operate op.complement .bool a b = .ok d ∧ d.Negates c) ∧
      (a.InMemory → ∃ c, Column.operate op .bool a b = .ok c) ∧ a.WellFormed ∧ b.WellFormed := by
  have hsound := hs.sound invariant_wellFormed
  have ha_well := hsound.shown ha
  have hb_well := hsound.shown hb
  obtain ⟨as, has⟩ := ha_well.holds
  obtain ⟨bs, hbs⟩ := hb_well.holds
  have hmirrored := Column.operate_mirrored hop has hbs hf hg hrows
  refine ⟨yields_make hs (Action.comesTo_operate hsound.coherent ha hb) hw,
    hmirrored ▸ yields_make hs (Action.comesTo_operate hsound.coherent hb ha) hw,
    yields_make hs (Action.comesTo_operate hsound.coherent ha hb) hw, fun c hc => ?_,
    fun hmemory => ?_, ha_well, hb_well⟩
  · obtain ⟨hc_rows, hroom⟩ := Column.rows_operate hc
    obtain ⟨c', hc', hpacked⟩ := Column.operate_comparison hop has hbs hf hg hrows hroom
    obtain rfl : c' = c := Except.ok.inj (hc'.symm.trans hc)
    exact ⟨hpacked.kind, hc_rows, hpacked.wellFormed, ⟨as, bs, has, hbs, hpacked.toHolds⟩,
      Column.operate_complement hop has hbs hf hg hrows hroom hpacked.toHolds⟩
  · obtain ⟨c, hc, -⟩ := Column.operate_comparison hop has hbs hf hg hrows (hmemory.reserved_le has hf rfl)
    exact ⟨c, hc⟩

set_option maxRecDepth 4000 in
/-- Words against dates: one past all that doubles count without gaps, one less than zero, and a
null. -/
theorem compare_integers_dates :
    let s := (Session.run { config := none } [
      .make (.ofParts (.int .w64) 3 [1, 0, 0, 0, 0, 0, 0x20, 0, 0xFF, 0xFF, 0xFF, 0xFF, 0xFF, 0xFF, 0xFF, 0xFF,
        7, 0, 0, 0, 0, 0, 0, 0] (some [0xFB])) "l",
      .make (.ofParts .date 3 [0, 0, 0, 0, 0xFF, 0xFF, 0xFF, 0xFF, 7, 0, 0, 0] none) "r"]).2
    let a : Column := ⟨.int .w64, 3, 1, ⟨.fixed [1, 0, 0, 0, 0, 0, 0x20, 0, 0xFF, 0xFF, 0xFF, 0xFF, 0xFF, 0xFF,
      0xFF, 0xFF, 7, 0, 0, 0, 0, 0, 0, 0], some ⟨0xFB :: List.replicate 63 0xFF⟩⟩⟩
    let b : Column := ⟨.date, 3, 0, ⟨.fixed [0, 0, 0, 0, 0xFF, 0xFF, 0xFF, 0xFF, 7, 0, 0, 0], none⟩⟩
    let c : Column := ⟨.bool, 3, 1, ⟨.fixed [0, 1, 0], some ⟨0xFB :: List.replicate 63 0xFF⟩⟩⟩
    s.Reachable .unlimited ∧ s.shown? "l" = some a ∧ s.shown? "r" = some b ∧ a.WellFormed ∧ b.WellFormed ∧
      a.InMemory ∧ c.Compared .lessEqual .w64 .w32 a b ∧
      (s.run [.make (.operate .lessEqual .bool "l" "r") "w"]).2.Displays "w" c ∧
      (s.run [.make (.operate .greaterEqual .bool "r" "l") "w"]).2.Displays "w" c ∧
      ∃ d : Column, d.Negates c ∧ (s.run [.make (.operate .greater .bool "l" "r") "w"]).2.Displays "w" d := by
  intro s a b c
  have hs : s.Reachable .unlimited := by
    refine (Session.Reachable.start none).run ?_
    simp [Command.Within]
  have ha : s.shown? "l" = some a := by decide +kernel
  have hb : s.shown? "r" = some b := by decide +kernel
  have hmemory : a.InMemory := by
    unfold Column.InMemory
    decide
  obtain ⟨hyields, hmirrored, hcomplement, hexact, hanswers, ha_well, hb_well⟩ :=
    compare_integers (w := "w") hs ha hb rfl rfl rfl (show Operation.lessEqual.isComparison from rfl)
      (by decide +kernel)
  obtain ⟨c', hc⟩ := hanswers hmemory
  have hdisplays := hyields.displays hc (undisturbed_of_all (by decide +kernel))
  have hshown : (s.run [.make (.operate .lessEqual .bool "l" "r") "w"]).2.shown? "w" = some c := by
    decide +kernel
  obtain rfl : c' = c := Option.some.inj (hdisplays.shown.symm.trans hshown)
  obtain ⟨-, -, -, hcompared, d, hd, hnegates⟩ := hexact _ hc
  exact ⟨hs, ha, hb, ha_well, hb_well, hmemory, hcompared, hdisplays,
    hmirrored.displays hc (undisturbed_of_all (by decide +kernel)), d, hnegates,
    hcomplement.displays hd (undisturbed_of_all (by decide +kernel))⟩

end Session

end Columnar
