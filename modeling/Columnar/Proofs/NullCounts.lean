/-
Null counts are right in every session.

The count of a column is kept apart from its validity bits: it is counted up as
nulls are added, summed where columns are joined, taken over by a cast. It is the
number of null rows in every session that commands lead to (`nulls_of_reachable`).
-/
import Columnar.Proofs.Forms
import Columnar.Proofs.Runs

namespace Columnar

/-! ## Every reachable session -/

namespace Session

open Columnar.Action

/-- **Null counts are right.** In every session that commands lead to, the null
count that is told of a vector is the number of its rows that read as null,
whatever was read before, and only a device can keep a row from being read; the
count is zero without validity bits. The null count of an open builder is the
number of null rows in it, and after any calls on a new builder it is the number
of null rows that they have added. -/
theorem nulls_of_reachable :
    (∀ s : Session, s.Reachable .unlimited →
      (∀ v c, s.shown? v = some c →
        (∃ told, (info v).exec s = (.ok told, s) ∧ told.shape = c.shape) ∧
        c.nullFlags.length = c.rows ∧
        (∀ i null, c.nullFlags[i]? = some null → ((isNull v i).exec s).1 = .ok null ∨
          ∃ e, ((isNull v i).exec s).1 = .error (.fault (.refused (.device e)))) ∧
        c.nulls = c.nullFlags.count true ∧ (0 < c.nulls ↔ true ∈ c.nullFlags) ∧
        (c.payload.validity = none → c.nulls = 0)) ∧
      ∀ name b, s.builders.find? name = some b → b.phase = .opened →
        b.nulls = (Bitmap.nullFlags b.validity b.rows).count true ∧
          (b.validity = none → b.nulls = 0)) ∧
    ∀ (k : Kind) (n : Nat) (withBits : Bool) (b : Builder) (calls : List Builder.Call),
      Builder.create k n withBits = .ok b → (∀ c ∈ calls, c.WellFormed) →
      (b.run calls).1.nulls = ((b.taken calls).flatMap Builder.Call.nullFlags).count true := by
  refine ⟨fun s hs => ⟨fun v c hc => ?_, fun name b hfind hopen => ?_⟩, fun k n withBits b calls hb hcalls => ?_⟩
  · have hsound := hs.sound invariant_wellFormed
    obtain ⟨-, hcovered, hnulls⟩ := (hsound.shown hc).counted
    refine ⟨exec_info hsound.coherent hc, c.length_nullFlags, fun i null hi => ?_, hnulls, ?_,
      fun hnone => ?_⟩
    · obtain ⟨hlt, hnull⟩ := List.getElem?_eq_some_iff.mp hi
      rw [c.length_nullFlags] at hlt
      rcases answer_isNull hsound.coherent hc hcovered hlt with hanswer | ⟨stop, hbrought, hanswer⟩
      · left
        rwa [List.getD_eq_getElem?_getD, hi] at hanswer
      · obtain ⟨e, rfl⟩ := error_of_materialize hc hbrought
        exact .inr ⟨e, hanswer⟩
    · rw [hnulls, List.count_pos_iff]
    · rw [hnulls, Column.nullFlags, hnone, Bitmap.count_nullFlags_none]
  · obtain ⟨held, present, hholds⟩ := (hs.sound invariant_wellFormed).builders name b hfind hopen
    have hnulls := hholds.counted.nulls
    refine ⟨hnulls, fun hnone => ?_⟩
    rw [show b.nulls = _ from hnulls, Column.nullFlags, show b.column.payload.validity = none from hnone,
      Bitmap.count_nullFlags_none]
  · obtain ⟨held, hholds, -, hflags⟩ := (Builder.holds_of_create hb).run hcalls
    rw [← hflags]
    exact hholds.nulls

/-- A vector with a null row, and another that is cast from it after a read. -/
theorem nulls_of_cast :
    let s := (Session.run { config := none } [
      .make (.assemble (.ofOptions .bool [some true, none])) "v",
      .isNull "v" 0,
      .make (.cast "v" (.int .w8)) "w"]).2
    s.Reachable .unlimited ∧ ∃ c, s.shown? "w" = some c ∧ c.nulls = 1 ∧ c.nulls = c.nullFlags.count true := by
  intro s
  have hs : s.Reachable .unlimited := by
    refine (Reachable.start none).run ?_
    simp [Command.Within]
  have hc : s.shown? "w" = some ⟨.int .w8, 2, 1,
      ⟨.fixed [1, 0], some ⟨0xFD :: List.replicate 63 0xFF⟩⟩⟩ := rfl
  obtain ⟨-, -, -, hnulls, -⟩ := (nulls_of_reachable.1 s hs).1 "w" _ hc
  exact ⟨hs, _, hc, rfl, hnulls⟩

end Session

end Columnar
