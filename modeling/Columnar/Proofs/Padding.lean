/-
Validity bits past the last row.

Rows that are not null write no validity bits: they rely on the bits past the
last row being set. Everything that makes a column or a builder leaves them set
(`invariant_padded`), whatever bits come in with raw parts and wherever bits are
merged to. So the bits of every vector in a session that commands lead to read as
its rows below the row count and as valid rows past it (`padded_of_reachable`).
-/
import Columnar.Proofs.Forms

namespace Columnar

namespace Column

variable {c c' : Column}

theorem ofParts_padded {k : Kind} {n : Nat} {data : Bytes} {validity : Option Bytes}
    (h : ofParts k n data validity = .ok c) : c.Padded := by
  obtain ⟨f, v, -, -, -, hfresh, rfl⟩ := ofParts_eq_ok h
  exact hfresh

theorem Padded.cast (h : c.Padded) {target : Kind} (hc : c.cast target = .ok c') : c'.Padded := by
  obtain ⟨e, rfl, -⟩ := cast_eq_ok hc
  exact h

theorem evaluate_padded {op : Operation} {out : Kind} {l r : Operand} (h : op.evaluate out l r = .ok c) :
    c.Padded := by
  obtain ⟨form, results, nullable, -, -, -, rfl⟩ := Operation.evaluate_eq_ok h
  intro v hv
  cases nullable with
  | false => cases hv
  | true =>
    obtain rfl : Operation.resultValidity results = v := by simpa using hv
    exact Operation.freshFrom_resultValidity results

end Column

/-- The bits of a builder past its last row have never been written. -/
theorem Builder.Marked.padded {b : Builder} {k : Kind} {n : Nat} {marks : List Bool} {present : Bool}
    (h : b.Marked k n marks present) : b.column.Padded := by
  intro v hv
  have hfresh := (h.fresh v hv).2
  rwa [← h.rows] at hfresh

/-- **Padding** is kept by everything that makes a column or a builder. -/
theorem invariant_padded {T : Limits} :
    Invariant T (fun c => c.WellFormed ∧ c.Padded) Builder.WellFormed where
  suits h := h.1.counted.suits
  create := invariant_wellFormed.create (T := T)
  append := invariant_wellFormed.append (T := T)
  appendColumn hb hc := invariant_wellFormed.appendColumn (T := T) hb hc.1
  column hb hopen := by
    obtain ⟨held, present, hholds⟩ := hb hopen
    exact ⟨invariant_wellFormed.column (T := T) hb hopen, hholds.padded⟩
  finish := invariant_wellFormed.finish (T := T)
  close := invariant_wellFormed.close (T := T)
  ofParts _ h := ⟨Column.ofParts_wellFormed h, Column.ofParts_padded h⟩
  cast h hcast := ⟨invariant_wellFormed.cast (T := T) h.1 hcast, h.2.cast hcast⟩
  concat h hc :=
    ⟨Column.concat_wellFormed (fun part hpart => (h part hpart).1) hc,
      (Column.concat_counted (fun part hpart => (h part hpart).1.counted) hc).2.2⟩
  operate hl hr h := by
    obtain ⟨l', r', heval⟩ := Column.evaluate_of_operate h
    exact ⟨invariant_wellFormed.operate (T := T) hl.1 hr.1 h, Column.evaluate_padded heval⟩
  operateScalar hl h := by
    obtain ⟨l', r', heval⟩ := Column.evaluate_of_operateScalar h
    exact ⟨invariant_wellFormed.operateScalar (T := T) hl.1 h, Column.evaluate_padded heval⟩

/-! ## Reads of validity bits -/

open Session

namespace Action

variable {s : Session} {v : String} {c : Column} {bits : Bitmap}

/-- A bit is read where there is one, be it of a row or past the last. -/
theorem exec_isNullExtended (hs : s.Coherent) (hc : s.shown? v = some c)
    (hbits : c.payload.validity = some bits) (i : Nat) :
    (isNullExtended v i).exec s =
      match (materialize v).exec s with
      | (.ok _, s') =>
        (if i < bits.capacity then .ok (!bits.isSet i)
          else .error (.fault (.refused (.indexOutOfRange i bits.capacity))), s')
      | (.error stop, s') => (.error stop, s') := by
  have hshape : c.shape.hasValidity = true := by simp [Column.shape, hbits]
  unfold isNullExtended
  rw [exec_bind, exec_shape hs hc]
  simp only [hshape, Bool.not_true, Bool.false_eq_true, if_false]
  rw [exec_of_materialize hs hc]
  rcases (materialize v).exec s with ⟨stop | p, s'⟩
  · rfl
  · simp only [hbits]
    by_cases hi : i < bits.capacity
    · rw [if_pos hi, if_pos hi, exec_pure]
    · rw [if_neg hi, if_neg hi, exec_act]
      rfl

/-- Of a row, the same bit is read. -/
theorem exec_isNull_of_bits (hs : s.Coherent) (hc : s.shown? v = some c)
    (hbits : c.payload.validity = some bits) (hcovered : c.Covered) {i : Nat} (hi : i < c.rows) :
    (isNull v i).exec s = (isNullExtended v i).exec s := by
  have hshape : c.shape.hasValidity = true := by simp [Column.shape, hbits]
  have hcap : i < bits.capacity := Nat.lt_of_lt_of_le hi (hcovered bits hbits)
  have hread : c.payload.isNull i = .ok (!bits.isSet i) := by
    rw [Payload.isNull, hbits]
    simp only [Bitmap.isSet?, if_pos hcap]
    rfl
  have hrest : (isNull v i).exec s = (materialize v >>= fun p => (p.isNull i).act).exec s := by
    simp only [isNull, exec_bind, exec_shape hs hc, exec_act, Column.checkIndex_of_lt hi, hshape,
      Bool.not_true, Bool.false_eq_true, if_false]
  rw [exec_isNullExtended hs hc hbits, if_pos hcap, hrest, exec_of_materialize hs hc, hread]
  rfl

theorem exec_validityBits (hs : s.Coherent) (hc : s.shown? v = some c)
    (hbits : c.payload.validity = some bits) {p : Payload} {s' : Session}
    (hp : (materialize v).exec s = (.ok p, s')) :
    (validityBits v).exec s = (.ok (some bits.capacity), s') := by
  have hshape : c.shape.hasValidity = true := by simp [Column.shape, hbits]
  obtain rfl := payload_of_materialize hs hc (by rw [hp])
  unfold validityBits
  rw [exec_bind, exec_shape hs hc]
  simp only [hshape, Bool.not_true, Bool.false_eq_true, if_false, exec_bind, hp, exec_pure, hbits,
    Option.map_some]

end Action

/-! ## Every reachable session -/

namespace Session

open Columnar.Action

/-- **Bits past the last row are set.** In every session that commands lead to,
whatever they were and whether they were refused, the validity bits of an open
builder and of a vector are set from the last row on to their end. A read of one
bit answers as the read of the row does where there is a row, that nothing is null
past the last row, and past the last bit it is refused; only a device can keep
the bits from being read. -/
theorem padded_of_reachable {s : Session} (hs : s.Reachable .unlimited) :
    (∀ name b bits, s.builders.find? name = some b → b.phase = .opened → b.validity = some bits →
      ∀ i, b.rows ≤ i → i < bits.capacity → bits.isSet i) ∧
    ∀ v c bits, s.shown? v = some c → c.payload.validity = some bits →
      c.rows ≤ bits.capacity ∧ (∀ i, c.rows ≤ i → i < bits.capacity → bits.isSet i) ∧
      (∀ i < c.rows, (isNullExtended v i).exec s = (isNull v i).exec s) ∧
      (∀ p s', (materialize v).exec s = (.ok p, s') →
        (validityBits v).exec s = (.ok (some bits.capacity), s') ∧
        (∀ i < c.rows, (isNull v i).exec s = (.ok (!bits.isSet i), s')) ∧
        (∀ i, c.rows ≤ i → i < bits.capacity → (isNullExtended v i).exec s = (.ok false, s')) ∧
        ∀ i, bits.capacity ≤ i → (isNullExtended v i).exec s =
          (.error (.fault (.refused (.indexOutOfRange i bits.capacity))), s')) ∧
      ∀ stop, ((materialize v).exec s).1 = .error stop → ∃ e, stop = .fault (.refused (.device e)) := by
  have hsound := hs.sound invariant_padded
  refine ⟨fun name b bits hfind hopen hbits => ?_, fun v c bits hc hbits => ?_⟩
  · obtain ⟨held, present, hholds⟩ := hsound.builders name b hfind hopen
    exact hholds.padded bits hbits
  · obtain ⟨hwell, hpadded⟩ := hsound.shown hc
    have hcounted := hwell.counted
    have hfresh := hpadded bits hbits
    have hcap := hcounted.covered bits hbits
    refine ⟨hcap, hfresh, fun i hi => ?_, fun p s' hp => ⟨?_, fun i hi => ?_, fun i hi hlt => ?_,
      fun i hi => ?_⟩, fun stop hstop => error_of_materialize hc hstop⟩
    · exact (exec_isNull_of_bits hsound.coherent hc hbits hcounted.covered hi).symm
    · exact exec_validityBits hsound.coherent hc hbits hp
    · rw [exec_isNull_of_bits hsound.coherent hc hbits hcounted.covered hi,
        exec_isNullExtended hsound.coherent hc hbits, hp]
      simp only [if_pos (Nat.lt_of_lt_of_le hi hcap)]
    · rw [exec_isNullExtended hsound.coherent hc hbits, hp]
      simp only [if_pos hlt, hfresh i hi hlt, Bool.not_true]
    · rw [exec_isNullExtended hsound.coherent hc hbits, hp]
      simp only [if_neg (Nat.not_lt.mpr hi)]

/-- Raw parts with clear bits past the last row, and an open builder with a null row. -/
theorem padded_of_parts :
    let s := (Session.run { config := none } [
      .make (.ofParts .bool 2 [1, 0] (some [0x01])) "v",
      .newBuilder "b" .bool 3 false,
      .append "b" (.rows .null)]).2
    s.Reachable .unlimited ∧ (∃ b bits, s.builders.find? "b" = some b ∧ b.validity = some bits ∧
      bits.isSet 1) ∧
      (isNullExtended "v" 1).exec s = (.ok true, s) ∧ (isNullExtended "v" 2).exec s = (.ok false, s) ∧
      (isNullExtended "v" 512).exec s =
        (.error (.fault (.refused (.indexOutOfRange 512 512))), s) := by
  intro s
  have hs : s.Reachable .unlimited := by
    refine (Reachable.start none).run ?_
    simp [Command.Within]
  obtain ⟨hbuilders, hvectors⟩ := padded_of_reachable hs
  have hb : (s.builders.find? "b").map (fun b => (b.phase, b.rows, b.validity)) =
      some (.opened, 1, some ⟨0xFE :: List.replicate 63 0xFF⟩) := rfl
  obtain ⟨b, hfind, hb⟩ := Option.map_eq_some_iff.mp hb
  obtain ⟨hopen, hb⟩ := Prod.mk.inj hb
  obtain ⟨hrows, hbits⟩ := Prod.mk.inj hb
  have hc : s.shown? "v" = some ⟨.bool, 2, 1,
      ⟨.fixed [1, 0], some ⟨0xFD :: List.replicate 63 0xFF⟩⟩⟩ := by decide +kernel
  obtain ⟨-, -, hsame, hreads, -⟩ := hvectors "v" _ _ hc rfl
  obtain ⟨-, hrow, hpast, hend⟩ := hreads _ s rfl
  refine ⟨hs, ⟨b, _, hfind, hbits, hbuilders "b" b _ hfind hopen hbits 1 (by omega) (by decide)⟩, ?_,
    hpast 2 (by decide) (by decide), hend 512 (by decide)⟩
  rw [hsame 1 (by decide), hrow 1 (by decide)]
  rfl

end Session

end Columnar
