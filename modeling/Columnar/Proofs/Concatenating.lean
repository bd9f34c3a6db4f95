/-
Concatenations in sessions.

The kinds of the vectors are compared before any data is brought, so what is
refused for its kinds leaves the session as it was. Then the data is brought
vector by vector, and the columns are joined (`Action.exec_concat`).
`concat_of_reachable` says what comes of it in any session that commands lead to.
-/
import Columnar.Proofs.Forms

namespace Columnar

/-! ## Runs of a concatenation -/

open Session

namespace Action

variable {s s' : Session} {vs : List String} {cs : List Column}

theorem exec_shapes (hs : s.Coherent) (hcs : vs.map s.shown? = cs.map some) :
    (vs.mapM shape).exec s = (.ok (cs.map Column.shape), s) := by
  induction vs generalizing cs with
  | nil =>
    obtain rfl : cs = [] := by simpa using hcs.symm
    rfl
  | cons v vs ih =>
    obtain ⟨c, cs, rfl, hc, hcs⟩ := List.map_eq_cons_iff.mp hcs.symm
    simp only [List.mapM_cons, exec_bind, exec_shape hs hc.symm, ih hcs.symm, exec_pure, List.map_cons]

/-- **Taking over vectors** is taking over their columns, once their data is brought; it stops
where bringing it does. -/
theorem exec_takeAll {C : Column → Prop} {B : Builder → Prop} (hs : s.Sound C B)
    (hcs : vs.map s.shown? = cs.map some) {t taken : Concatenation} (ht : t.takeAll cs = .ok taken) :
    (takeAll t vs).exec s =
      match (vs.mapM materialize).exec s with
      | (.ok _, s') => (.ok taken, s')
      | (.error stop, s') => (.error stop, s') := by
  induction vs generalizing s cs t with
  | nil =>
    obtain rfl : cs = [] := by simpa using hcs.symm
    cases ht
    rfl
  | cons v vs ih =>
    obtain ⟨c, cs, rfl, hc, hcs⟩ := List.map_eq_cons_iff.mp hcs.symm
    obtain ⟨d, hd, ht⟩ := Concatenation.takeAll_cons_eq_ok.mp ht
    have htake : c.shape.rows = c.rows := rfl
    obtain ⟨hs₁, hlater, -⟩ := safe_materialize hs v
    rw [List.mapM_cons, exec_bind]
    simp only [takeAll, exec_bind, exec_shape hs.coherent hc.symm]
    rcases hx : (materialize v).exec s with ⟨stop | p, s₁⟩
    · rfl
    · obtain rfl := payload_of_materialize hs.coherent hc.symm (by rw [hx])
      rw [hx] at hs₁ hlater
      simp only [exec_act, htake, hd, ih hs₁ (hlater.map_shown? hcs.symm) ht, exec_pure]
      rcases (vs.mapM materialize).exec s₁ with ⟨stop | ps, s₂⟩ <;> rfl

/-- **Concatenating vectors** concatenates their columns, once their data is
brought, to a new vector on the host. -/
theorem exec_concat {C : Column → Prop} {B : Builder → Prop} (hs : s.Sound C B)
    (hcs : vs.map s.shown? = cs.map some) {ps : List Payload}
    (hp : (vs.mapM materialize).exec s = (.ok ps, s')) {c : Column} (hc : Column.concat cs = .ok c) :
    ∃ id s'', (concat vs).exec s = (.ok id, s'') ∧
      s''.storages.find? id = some ⟨c.shape, .host c.payload, 1⟩ := by
  simp only [Column.concat, Outcome.bind_eq_ok, Outcome.pure_eq_ok] at hc
  obtain ⟨k, hk, start, hstart, taken, htaken, rfl⟩ := hc
  simp only [concat, exec_bind, exec_shapes hs.coherent hcs, exec_act, hk, hstart,
    exec_takeAll hs hcs htaken, hp, exec_modify]
  exact ⟨_, _, rfl, Table.find?_insert_self _ _ _⟩

/-- Vectors of different kinds are refused as they are. -/
theorem exec_concat_of_kinds (hs : s.Coherent) (hcs : vs.map s.shown? = cs.map some)
    (hkinds : ∃ c ∈ cs, ∃ d ∈ cs, c.kind ≠ d.kind) :
    ∃ k l, (concat vs).exec s = (.error (.fault (.refused (.wrongKind k l))), s) := by
  obtain ⟨c, hc, d, hd, hne⟩ := hkinds
  have hshapes : ∃ a ∈ cs.map Column.shape, ∃ b ∈ cs.map Column.shape, a.kind ≠ b.kind :=
    ⟨c.shape, List.mem_map_of_mem hc, d.shape, List.mem_map_of_mem hd, hne⟩
  obtain ⟨k, l, hrefused⟩ := Concatenation.requireKind_eq_refuse hshapes
  refine ⟨k, l, ?_⟩
  simp only [concat, exec_bind, exec_shapes hs hcs, exec_act, hrefused, refuse]

end Action

/-! ## Columns joined -/

/-- **Well-formed columns of one kind** are joined to one that has their rows, where storage for
all of these can be set aside. -/
theorem Column.concat_of_wellFormed {k : Kind} {parts : List Column} (hne : parts ≠ [])
    (h : ∀ part ∈ parts, part.WellFormed) (hkind : ∀ part ∈ parts, part.kind = k)
    (hroom : Elements.reserved k (total (parts.map rows)) ≤ maxSize)
    (htext : k = .string →
      total (parts.map fun part => part.payload.elements.data.length) ≤ maxTextBytes) :
    ∃ c, concat parts = .ok c ∧ c.kind = k ∧ c.Counted ∧ c.Padded ∧ c.rows = total (parts.map rows) ∧
      c.scalars = parts.flatMap scalars ∧ ∀ answer ∈ c.scalars, ∃ a, answer = .ok a := by
  obtain ⟨held, hheld⟩ := allHold_of_wellFormed h
  have hfits : Elements.Fits k (held.map Row.cell) := by
    rintro rfl
    rw [hheld.length_text hkind]
    exact htext rfl
  obtain ⟨c, hc⟩ := concat_ok hne hkind hheld hroom hfits
  obtain ⟨-, hcounted, hpadded⟩ := concat_counted (fun part hpart => (h part hpart).counted) hc
  have hckind := kind_concat hne hkind hc
  have hscalars := (concat_holds hheld hc).scalars
  refine ⟨c, hc, hckind, hcounted, hpadded, rows_concat hc, ?_, ?_⟩
  · rw [hscalars, hckind, hheld.scalars hkind]
  · rw [hscalars]
    intro answer hanswer
    obtain ⟨r, -, rfl⟩ := List.mem_map.mp hanswer
    exact ⟨_, rfl⟩

/-! ## Every reachable session -/

open Columnar.Action

/-- **Concatenation joins rows.** In every session that commands lead to, vectors of one
kind, with storage that can be set aside for all their rows and text that offsets reach,
are concatenated if their data is brought: to a new vector with the rows of all of
them in order, the sum of their nulls, and validity bits if some of them have any,
which are set past the last row. No vectors, or vectors of different kinds, are
refused before any data is brought. -/
theorem concat_of_reachable {s : Session} (hs : s.Reachable .unlimited) :
    (∀ (vs : List String) (cs : List Column) (k : Kind) (ps : List Payload) (s' : Session), vs ≠ [] →
      vs.map s.shown? = cs.map some → (∀ c ∈ cs, c.kind = k) →
      Elements.reserved k (total (cs.map Column.rows)) ≤ maxSize →
      (k = .string → total (cs.map fun c => c.payload.elements.data.length) ≤ maxTextBytes) →
      (vs.mapM materialize).exec s = (.ok ps, s') →
      ∃ (id : Nat) (s'' : Session) (c : Column), (concat vs).exec s = (.ok id, s'') ∧
        s''.storages.find? id = some ⟨c.shape, .host c.payload, 1⟩ ∧ c.kind = k ∧
        c.rows = total (cs.map Column.rows) ∧ c.scalars = cs.flatMap Column.scalars ∧
        (∀ answer ∈ c.scalars, ∃ a, answer = .ok a) ∧
        c.nulls = total (cs.map Column.nulls) ∧ c.nulls = c.nullFlags.count true ∧
        (c.payload.validity.isSome ↔ ∃ part ∈ cs, part.payload.validity.isSome) ∧
        ∀ b, c.payload.validity = some b → b.bytes.length = Bitmap.allocationSize c.rows ∧
          ∀ i, c.rows ≤ i → i < b.capacity → b.isSet i) ∧
    (concat []).exec s = (.error (.fault (.refused .nothingToConcatenate)), s) ∧
    ∀ (vs : List String) (cs : List Column), vs.map s.shown? = cs.map some →
      (∃ c ∈ cs, ∃ d ∈ cs, c.kind ≠ d.kind) →
      ∃ k l, (concat vs).exec s = (.error (.fault (.refused (.wrongKind k l))), s) := by
  have hsound := hs.sound invariant_wellFormed
  refine ⟨fun vs cs k ps s' hne hcs hkind hroom htext hp => ?_, rfl, fun vs cs hcs hkinds =>
    exec_concat_of_kinds hsound.coherent hcs hkinds⟩
  have hparts : cs ≠ [] := by
    rintro rfl
    exact hne (by simpa using hcs)
  have hwell : ∀ c ∈ cs, c.WellFormed := by
    intro c hc
    have hmem : some c ∈ vs.map s.shown? := hcs ▸ List.mem_map_of_mem hc
    obtain ⟨v, -, hv⟩ := List.mem_map.mp hmem
    exact hsound.shown hv
  obtain ⟨c, hc, hckind, hcounted, hpadded, hrows, hscalars, hok⟩ :=
    Column.concat_of_wellFormed hparts hwell hkind hroom htext
  obtain ⟨id, s'', hexec, hst⟩ := exec_concat hsound hcs hp hc
  have hcapacity := Column.capacity_concat hc
  refine ⟨id, s'', c, hexec, hst, hckind, hrows, hscalars, hok, Column.nulls_concat hc, hcounted.nulls,
    ?_, fun b hb => ⟨?_, hpadded b hb⟩⟩
  · rw [← List.any_eq_true (p := fun part : Column => part.payload.validity.isSome),
      ← Option.isSome_map (f := Bitmap.capacity), hcapacity]
    split <;> simp_all
  · rw [hb, Option.map_some] at hcapacity
    split at hcapacity
    · have hsame := Option.some.inj hcapacity
      simp only [Bitmap.capacity, Bitmap.allValid, List.length_replicate] at hsame
      omega
    · cases hcapacity

set_option maxRecDepth 4000 in
/-- A vector on the host and one on a device, the first of them twice. -/
theorem concat_of_host_and_device :
    let s := (Session.run { config := none } [
      .make (.ofParts .bool 2 [1, 0] (some [0xFD])) "a",
      .newRuntime "r" Runtime.faultless.plan,
      .newBuilder "x" .bool 1 false,
      .append "x" (.rows (.value .bool true)),
      .build "x" (.runtime "r") "b"]).2
    s.Reachable .unlimited ∧ ∃ (id : Nat) (s'' : Session) (c : Column),
      (concat ["a", "b", "a"]).exec s = (.ok id, s'') ∧
      s''.storages.find? id = some ⟨c.shape, .host c.payload, 1⟩ ∧ c.nulls = 2 ∧
      c.scalars = [.ok (.bool true), .ok .null, .ok (.bool true), .ok (.bool true), .ok .null] := by
  intro s
  have hs : s.Reachable .unlimited := by
    refine (Reachable.start none).run ?_
    simp [Command.Within, faithful_faultless]
  let a : Column := ⟨.bool, 2, 1, ⟨.fixed [1, 0], some ⟨0xFD :: List.replicate 63 0xFF⟩⟩⟩
  let b : Column := ⟨.bool, 1, 0, ⟨.fixed [1], none⟩⟩
  obtain ⟨id, s'', c, hexec, hst, -, -, hscalars, -, hnulls, -⟩ :=
    (concat_of_reachable hs).1 ["a", "b", "a"] [a, b, a] .bool _ _ (by simp) rfl (by simp [a, b])
      (by decide) (by simp) rfl
  exact ⟨hs, id, s'', c, hexec, hst, hnulls, hscalars⟩

end Columnar
