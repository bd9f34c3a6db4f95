/-
What is built is what was added.

`Builder.run_built` says of every run of calls on a new builder, some of which
may fail, what the vector that is built of it on the host is: its rows are those
of the calls that were taken.
-/
import Columnar.Proofs.Deriving
import Columnar.Proofs.Reading
import Columnar.Proofs.Runs

namespace Columnar.Builder

/-- **What is built of a run** of calls on a new builder: the rows of the calls
that were taken, one after the other, with their nulls, and all of them read back;
and validity bits, if the builder was made with them or some call had need of them. -/
theorem run_built {k : Kind} {n : Nat} {withBits : Bool} {b : Builder} {calls : List Call}
    (hb : create k n withBits = .ok b) (hcalls : ∀ c ∈ calls, c.WellFormed) (s : Session) :
    ∃ (id : Nat) (s' : Session) (c : Column),
      Work.buildOnHost.exec (b.run calls).1 s = ((.ok id, (b.run calls).1.finish), s') ∧
      s'.storages.find? id = some ⟨c.shape, .host c.payload, 1⟩ ∧ c.kind = k ∧
      c.rows = ((b.taken calls).flatMap (Call.scalars k)).length ∧
      c.scalars = (b.taken calls).flatMap (Call.scalars k) ∧
      c.nulls = ((b.taken calls).flatMap Call.nullFlags).count true ∧
      (c.payload.validity.isSome ↔ withBits ∨ ∃ call ∈ b.taken calls, call.needsValidity) := by
  obtain ⟨held, hholds, hscalars, hflags⟩ := (holds_of_create hb).run hcalls
  rw [List.nil_append] at hholds
  have hkind : (b.run calls).1.column.kind = k := hholds.kind
  have hopen : (b.run calls).1.requireOpen = .ok () := requireOpen_eq_ok.mpr hholds.opened
  have hbuild := Action.exec_work_buildOnHost (b.run calls).1 s
  rw [hopen] at hbuild
  refine ⟨_, _, (b.run calls).1.column, hbuild, Table.find?_insert_self _ _ _, hkind, ?_, ?_, ?_, ?_⟩
  · rw [← hscalars, List.length_map]
    exact hholds.column.length.symm
  · rw [hholds.column.scalars, hkind, hscalars]
  · rw [← hflags]
    exact hholds.nulls
  · rw [show (b.run calls).1.column.payload.validity.isSome = _ from hholds.bits, Bool.or_eq_true,
      List.any_eq_true]

set_option maxRecDepth 4000 in
/-- Values, a null row and a vector, with one call among them that is refused. -/
theorem run_built_of_bools :
    let source : Column := ⟨.bool, 2, 1, ⟨.fixed [1, 0], some ⟨0xFD :: List.replicate 63 0xFF⟩⟩⟩
    let calls : List Call :=
      [.rows (.values .bool [true, false]), .rows (.text "no"), .rows .null, .column source none]
    create .bool 5 false = .ok (new .bool 5) ∧ (∀ c ∈ calls, c.WellFormed) ∧
      ∃ (id : Nat) (s' : Session) (c : Column),
        Work.buildOnHost.exec ((new .bool 5).run calls).1 { config := none } =
          ((.ok id, ((new .bool 5).run calls).1.finish), s') ∧
        s'.storages.find? id = some ⟨c.shape, .host c.payload, 1⟩ ∧ c.nulls = 2 ∧
        c.payload.validity.isSome ∧
        c.scalars = [.ok (.bool true), .ok (.bool false), .ok .null, .ok (.bool true), .ok .null] := by
  intro source calls
  have hparts : Column.ofParts .bool 2 [1, 0] (some [0xFD]) = .ok source := rfl
  have hcalls : ∀ c ∈ calls, c.WellFormed := by
    simp only [calls, List.forall_mem_cons, Call.WellFormed, true_and]
    exact ⟨Column.ofParts_wellFormed hparts, by simp⟩
  have htaken : (new .bool 5).taken calls =
    [.rows (.values .bool [true, false]), .rows .null, .column source none] := by
    with_unfolding_all rfl
  obtain ⟨id, s', c, hbuild, hst, -, -, hread, hnulls, hbits⟩ :=
    @run_built .bool 5 false (new .bool 5) calls rfl hcalls { config := none }
  rw [htaken] at hread hnulls hbits
  refine ⟨rfl, hcalls, id, s', c, hbuild, hst, hnulls, hbits.mpr (.inr ⟨.rows .null, ?_, rfl⟩), hread⟩
  simp

end Columnar.Builder
