/-
What the buffers of every vector look like.

Everything that makes a column leaves it well formed (`invariant_wellFormed`), so
all columns in a session that commands lead to are, and every read of a row that
there is finds it (`formed_of_reachable`).
-/
import Columnar.Proofs.Building
import Columnar.Proofs.Deriving
import Columnar.Proofs.Joining
import Columnar.Proofs.Reaching

namespace Columnar

/-- An open builder that holds rows. -/
def Builder.WellFormed (b : Builder) : Prop :=
  b.phase = .opened → ∃ held present, b.Holds b.kind b.capacity held present

namespace Column

variable {c : Column} {parts : List Column}

theorem WellFormed.of_counted (h : c.Counted) (hrows : ∃ rows, c.Holds rows) : c.WellFormed :=
  ⟨hrows, h.nulls⟩

/-- **A concatenation is well formed** if its parts are. -/
theorem concat_wellFormed (h : ∀ part ∈ parts, part.WellFormed) (hc : concat parts = .ok c) :
    c.WellFormed := by
  obtain ⟨held, hheld⟩ := allHold_of_wellFormed h
  exact .of_counted (concat_counted (fun part hpart => (h part hpart).counted) hc).2.1
    ⟨held, concat_holds hheld hc⟩

end Column

/-- **Well-formed columns** come of well-formed columns and builders. -/
theorem invariant_wellFormed {T : Limits} : Invariant T Column.WellFormed Builder.WellFormed where
  suits h := h.counted.suits
  create h _ := ⟨[], _, by
    have hholds := Builder.holds_of_create h
    rwa [← hholds.kind, ← hholds.capacity] at hholds⟩
  append hb happend _ := by
    obtain ⟨hopen, -⟩ := Builder.append_eq_ok happend
    obtain ⟨held, present, hholds⟩ := hb hopen
    have hholds' := hholds.append happend
    rw [← hholds'.kind, ← hholds'.capacity] at hholds'
    exact ⟨_, _, hholds'⟩
  appendColumn hb hc happend _ := by
    obtain ⟨held, present, hholds⟩ := hb (Builder.opened_of_appendColumn happend)
    obtain ⟨rows, hrows⟩ := hc.holds
    have hholds' := hholds.appendColumn hc.counted hrows happend
    rw [← hholds'.kind, ← hholds'.capacity] at hholds'
    exact ⟨_, _, hholds'⟩
  column hb hopen := by
    obtain ⟨held, present, hholds⟩ := hb hopen
    exact .of_counted hholds.counted ⟨held, hholds.column⟩
  finish _ hopen := by cases hopen
  close _ hopen := absurd hopen Builder.phase_close
  ofParts _ := Column.ofParts_wellFormed
  cast h hcast := by
    obtain ⟨rows, hrows⟩ := h.holds
    exact .of_counted (h.counted.cast hcast).2 (hrows.cast hcast)
  concat := Column.concat_wellFormed
  operate _ _ h := .of_counted (Column.operate_ok h).1 (Column.operate_ok h).2
  operateScalar _ h := .of_counted (Column.operateScalar_ok h).1 (Column.operateScalar_ok h).2

/-! ## Columns in memory -/

/-- No address has more bits than this. -/
def addressBits : Nat := 57

namespace Column

variable {c : Column}

/-- That no buffer of the column is longer than addresses reach. -/
def InMemory (c : Column) : Prop := ∀ buffer ∈ c.payload.buffers, buffer.length < 2 ^ addressBits

/-- Every row takes a byte of some buffer, or an offset. -/
theorem InMemory.rows_lt (h : c.InMemory) {rows : List Row} (hc : c.Holds rows) :
    c.rows < 2 ^ addressBits := by
  cases hk : c.kind.primitive? with
  | some f =>
    obtain ⟨bytes, he, hlen⟩ := hc.formed.fixed f hk
    have hdata := h bytes (by simp [Payload.buffers, Elements.data, he])
    have hwidth := Nat.mul_le_mul_left c.rows f.width_pos
    omega
  | none =>
    obtain ⟨offsets, text, he, hlen, -⟩ := hc.formed.strings (Kind.primitive?_eq_none.mp hk)
    have hoffsets := h (Payload.encodeOffsets offsets) (by simp [Payload.buffers, Elements.offsets?, he])
    rw [Payload.length_encodeOffsets] at hoffsets
    omega

end Column

/-! ## Reads -/

namespace Column

variable {c : Column} {rows : List Row} {i : Nat}

/-- Every element of the stored form is there. -/
theorem Holds.element (h : c.Holds rows) {f : Primitive} (hf : c.kind.primitive? = some f)
    (hi : i < c.rows) : ∃ a, c.payload.element f i = .ok a :=
  ⟨_, Payload.element_lay hf h.elements h.isCell (by simpa [h.length] using hi)⟩

/-- Every string is there and well formed. -/
theorem Holds.text (h : c.Holds rows) (hk : c.kind = .string) (hi : i < c.rows) :
    ∃ a, c.payload.text c.kind i = .ok a := by
  have hi : i < (rows.map Row.cell).length := by simpa [h.length] using hi
  obtain ⟨a, ha⟩ : Kind.IsCell .string (rows.map Row.cell)[i] := hk ▸ h.isCell _ (List.getElem_mem hi)
  rw [hk]
  exact ⟨a, Payload.text_lay (hk ▸ h.elements) (hk ▸ h.fits) hi ha⟩

end Column

open Columnar.Session Columnar.Action

/-- **What reads of a well-formed vector answer**: every row that there is, once
its data is there, and else the error of the device. -/
theorem reads_of_wellFormed {s : Session} {v : String} {c : Column} (hs : s.Coherent)
    (hc : s.shown? v = some c) (hwell : c.WellFormed) {p : Payload}
    (hp : ((materialize v).exec s).1 = .ok p) {i : Nat} (hi : i < c.rows) :
    (∃ a, ((isNull v i).exec s).1 = .ok a) ∧
      (∀ f, c.kind.primitive? = some f → ∃ a, ((element v f i).exec s).1 = .ok a) ∧
      (c.kind = .string → ∃ a, ((text v i).exec s).1 = .ok a) ∧
      ∃ a, ((scalar v i).exec s).1 = .ok a := by
  obtain ⟨rows, hrows⟩ := hwell.holds
  refine ⟨?_, fun f hf => ?_, fun hk => ?_, ?_⟩
  · rcases answer_isNull hs hc hrows.covered hi with hanswer | ⟨stop, hbrought, -⟩
    · exact ⟨_, hanswer⟩
    · rw [hp] at hbrought
      cases hbrought
  · obtain ⟨a, ha⟩ := hrows.element hf hi
    exact ⟨a, by rw [answer_element hs hc hi hf, hp, ha]; rfl⟩
  · obtain ⟨a, ha⟩ := hrows.text hk hi
    exact ⟨a, by rw [answer_text hs hc hi, hp, ha]; rfl⟩
  · have ha := hrows.scalar (hrows.length.symm ▸ hi)
    exact ⟨_, by rw [answer_scalar hs hc hi, hp, ha]; rfl⟩

/-! ## Every reachable session -/

/-- **Every vector is well formed.** In every session that commands lead to, the
buffers of every vector have their form; reads find every row that there is, unless a
device keeps the data from being brought, and are refused past the last row. -/
theorem formed_of_reachable {s : Session} (hs : s.Reachable .unlimited) {v : String} {c : Column}
    (hc : s.shown? v = some c) :
    c.Formed ∧
    (∀ i, c.rows ≤ i →
      let refusal := Stop.fault (.refused (.indexOutOfRange i c.rows))
      (isNull v i).exec s = (.error refusal, s) ∧ (∀ f, (element v f i).exec s = (.error refusal, s)) ∧
        (text v i).exec s = (.error refusal, s) ∧ (scalar v i).exec s = (.error refusal, s)) ∧
    (∀ p, ((materialize v).exec s).1 = .ok p → ∀ i < c.rows,
      (∃ a, ((isNull v i).exec s).1 = .ok a) ∧
      (∀ f, c.kind.primitive? = some f → ∃ a, ((element v f i).exec s).1 = .ok a) ∧
      (c.kind = .string → ∃ a, ((text v i).exec s).1 = .ok a) ∧
      ∃ a, ((scalar v i).exec s).1 = .ok a) ∧
    ∀ stop, ((materialize v).exec s).1 = .error stop → ∃ e, stop = .fault (.refused (.device e)) := by
  have hsound := hs.sound invariant_wellFormed
  have hwell := hsound.shown hc
  obtain ⟨rows, hrows⟩ := hwell.holds
  refine ⟨hrows.formed, fun i hi => exec_past hsound.coherent hc hi, fun p hp i hi => ?_,
    fun stop hstop => error_of_materialize hc hstop⟩
  exact reads_of_wellFormed hsound.coherent hc hwell hp hi

/-- A vector of strings, one of them null. -/
theorem formed_of_texts :
    let s := (Session.run { config := none }
      [.make (.assemble (.ofOptionTexts [some "é", none])) "v"]).2
    s.Reachable .unlimited ∧ ∃ c, s.shown? "v" = some c ∧ c.Formed ∧
      (∃ a, ((text "v" 0).exec s).1 = .ok a) ∧
      (text "v" 2).exec s = (.error (.fault (.refused (.indexOutOfRange 2 2))), s) := by
  intro s
  have hs : s.Reachable .unlimited := by
    refine (Reachable.start none).run ?_
    simp [Command.Within]
  have hc : s.shown? "v" = some ⟨.string, 2, 1,
      ⟨.strings [0, 2, 2] [0xC3, 0xA9], some ⟨0xFD :: List.replicate 63 0xFF⟩⟩⟩ := by decide +kernel
  obtain ⟨hformed, hpast, hreads, -⟩ := formed_of_reachable hs hc
  obtain ⟨-, -, htext, -⟩ := hreads _ rfl 0 (by decide)
  exact ⟨hs, _, hc, hformed, htext rfl, (hpast 2 (by decide)).2.2.1⟩

end Columnar
