/-
Reversed operations are operations with their operands swapped.

The operands of an operation do not go the same way: one is taken apart before the other, the rows
of one are counted, and a scalar can stand in for one only. None of that can be told from the result.
At every row a reversed operation is the other one with the operands swapped (`Operation.apply_reversed`),
and so is all of its evaluation (`Operation.evaluate_reversed`). The checks are the same but for their
order (`Operation.requireColumns_reversed`).
-/
import Columnar.Proofs.Broadcasting
import Columnar.Proofs.Computing

namespace Columnar

/-! ## Evaluation -/

namespace Operation

variable {op forward : Operation} {out : Kind} {a b : Column} {l r : Operand}

/-- **A reversed operation** at a row. -/
theorem apply_reversed (h : op.unreversed? = some forward) (form : Primitive) (x y : Number) :
    op.apply form x y = forward.apply form y x := by
  simp only [apply, h, (forward_of_reversed h).1]

theorem results_reversed (h : op.unreversed? = some forward) (form : Primitive) (l r : Operand) :
    op.results form l r = forward.results form r l := by
  rw [results, results, List.zipWith_comm]
  congr 1
  funext y x
  -- Either operand may be null, whichever is looked at first.
  cases x with
  | none => cases y <;> rfl
  | some x =>
    cases y with
    | none => rfl
    | some y => exact apply_reversed h form x y

/-- **A reversed operation** on operands of as many rows. -/
theorem evaluate_reversed (h : op.unreversed? = some forward)
    (hlength : l.values.length = r.values.length) : op.evaluate out l r = forward.evaluate out r l := by
  simp only [evaluate, results_reversed h, hlength, Bool.or_comm]

/-- Neither a reversed operation nor the other is a comparison. -/
theorem requireOutput_reversed (h : op.unreversed? = some forward) :
    op.requireOutput out = forward.requireOutput out := by
  cases op <;> cases h <;> rfl

theorem requireColumns_reversed (h : op.unreversed? = some forward) :
    op.requireColumns out a.shape b.shape = .ok () ↔ forward.requireColumns out b.shape a.shape = .ok () := by
  rw [requireColumns_eq_ok, requireColumns_eq_ok, requireOutput_reversed h, and_left_comm, eq_comm (a := a.rows)]

end Operation

/-! ## Columns -/

/-- **A reversed operation** on two columns makes the column that the other makes of them swapped. -/
theorem Column.operate_reversed_iff {op forward : Operation} {out : Kind} {a b c : Column}
    (h : op.unreversed? = some forward) :
    operate op out a b = .ok c ↔ operate forward out b a = .ok c := by
  rw [operate_eq_ok, operate_eq_ok, exists_comm, ← Operation.requireColumns_reversed h]
  refine and_congr_right fun hchecks => exists_congr fun r => exists_congr fun l => ?_
  obtain ⟨-, -, -, hrows⟩ := Operation.requireColumns_eq_ok.mp hchecks
  rw [and_left_comm]
  refine and_congr_right fun hr => and_congr_right fun hl => ?_
  have hlength : l.values.length = r.values.length :=
    (Operand.length_values hl).trans (hrows.trans (Operand.length_values hr).symm)
  rw [Operation.evaluate_reversed h hlength]

/-! ## Every reachable session -/

namespace Session

variable {s : Session} {l r w : String} {a b : Column} {op forward : Operation}

/-- **Reversed operations swap their operands.** In every session that commands lead to, a reversed
operation on two vectors, and the other one on them swapped, yield the results on their columns,
unless a device fails to bring some data. The one succeeds if and only if the other does, and then
they make the same vector. So it is with a scalar for the right operand: there is the other operation
on a vector of as many rows that all read as the scalar. -/
theorem operate_reversed (hs : s.Reachable .unlimited) (ha : s.shown? l = some a)
    (hb : s.shown? r = some b) (hop : op.unreversed? = some forward) (out : Kind)
    (hw : s.vectors.find? w = none) :
    s.Yields [.make (.operate op out l r) w] w (Column.operate op out a b) ∧
      s.Yields [.make (.operate forward out r l) w] w (Column.operate forward out b a) ∧
      (∀ c, Column.operate op out a b = .ok c ↔ Column.operate forward out b a = .ok c) ∧
      ∀ x, b.Broadcasts x → b.rows = a.rows →
        s.Yields [.make (.operateScalar op out l x) w] w (Column.operateScalar op out a x) ∧
          ∀ c, Column.operateScalar op out a x = .ok c ↔ Column.operate forward out b a = .ok c := by
  have hcoherent := (hs.sound invariant_wellFormed).coherent
  have hsame (c : Column) : Column.operate op out a b = .ok c ↔ Column.operate forward out b a = .ok c :=
    Column.operate_reversed_iff hop
  refine ⟨yields_make hs (Action.comesTo_operate hcoherent ha hb) hw,
    yields_make hs (Action.comesTo_operate hcoherent hb ha) hw, hsame, fun x hx hrows => ?_⟩
  exact ⟨yields_make hs (Action.comesTo_operateScalar hcoherent ha x) hw,
    fun c => (Column.operateScalar_eq_ok_iff hx hrows).trans (hsame c)⟩

/-- What is left of a hundred by three integers, one of them zero and one null. -/
theorem operate_reversed_rmod :
    let remainders : Column :=
      ⟨.int .w16, 3, 2, ⟨.fixed [2, 0, 0, 0, 0, 0], some ⟨0xF9 :: List.replicate 63 0xFF⟩⟩⟩
    Operation.rmod.unreversed? = some .mod ∧
      (besideConstants.run [.make (.operate .rmod (.int .w16) "a" "b") "w"]).2.Displays "w" remainders ∧
      (besideConstants.run [.make (.operate .mod (.int .w16) "b" "a") "w"]).2.Displays "w" remainders ∧
      (besideConstants.run
        [.make (.operateScalar .rmod (.int .w16) "a" (.int .w8 (100 : BitVec 8))) "w"]).2.Displays
        "w" remainders := by
  intro remainders
  have hop : Operation.rmod.unreversed? = some .mod := rfl
  have ha : besideConstants.shown? "a" = some threeIntegers := by decide +kernel
  have hb : besideConstants.shown? "b" = some hundreds := by decide +kernel
  have hw : besideConstants.vectors.find? "w" = none := by decide +kernel
  obtain ⟨hreversed, hswapped, hsame, hbroadcast⟩ :=
    operate_reversed reachable_besideConstants ha hb hop (.int .w16) hw
  obtain ⟨hscalar, hsame'⟩ := hbroadcast _ broadcasts_hundreds rfl
  have hremainders : Column.operate .mod (.int .w16) hundreds threeIntegers = .ok remainders := rfl
  exact ⟨hop, hreversed.displays ((hsame _).mpr hremainders) (undisturbed_of_all (by decide +kernel)),
    hswapped.displays hremainders (undisturbed_of_all (by decide +kernel)),
    hscalar.displays ((hsame' _).mpr hremainders) (undisturbed_of_all (by decide +kernel))⟩

end Session

end Columnar
