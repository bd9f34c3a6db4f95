/-
What a scan answers.

A scan asks of every row whether it is null, and reads only the elements of the others. So the form
that is asked for is compared with the kind of the vector where an element is read, and not before: a
range of nulls alone is answered in any form. Apart from that it is a matter of the form alone whether
a scan is refused (`scan_of_offers`).

The data is brought with the first row that needs it, and stays (`exec_materialize_again`).
-/
import Columnar.Proofs.Deeds
import Columnar.Proofs.Forms

namespace Columnar

/-! ## Rows -/

namespace Row

/-- The element that a row has in a form, unless it is null. -/
def element (f : Primitive) (r : Row) : Option f.Carrier := if r.null then none else some (f.decode r.cell)

/-- What a scan reads of a row of a kind: only where there is an element does the form matter. -/
def read (k : Kind) (f : Primitive) (r : Row) : Outcome (Option f.Carrier) :=
  if r.null then .ok none
  else if k.storage = f.kind then .ok (some (f.decode r.cell))
  else refuse (.wrongKind k f.kind)

variable {k : Kind} {f : Primitive}

theorem read_of_form (hf : k.storage = f.kind) (r : Row) : r.read k f = .ok (r.element f) := by
  rw [read, element, if_pos hf]
  split <;> rfl

theorem read_of_null {r : Row} (h : r.null) : r.read k f = .ok (r.element f) := by
  rw [read, element, if_pos h, if_pos h]

theorem read_of_ne (hf : k.storage ≠ f.kind) {r : Row} (h : r.null = false) :
    r.read k f = refuse (.wrongKind k f.kind) := by
  rw [read, if_neg (by simp [h]), if_neg hf]

/-- **Rows are read** if the form is that of the kind or if none has an element, and are refused
otherwise. -/
theorem mapM_read (k : Kind) (f : Primitive) (rows : List Row) :
    rows.mapM (read k f) = if k.storage = f.kind ∨ ∀ r ∈ rows, r.null then .ok (rows.map (element f))
      else refuse (.wrongKind k f.kind) := by
  induction rows with
  | nil => simp [pure, Except.pure]
  | cons r rows ih =>
    rw [List.mapM_cons, ih]
    by_cases hf : k.storage = f.kind
    · simp only [read_of_form hf, if_pos (Or.inl hf)]
      rfl
    · cases hnull : r.null with
      | true =>
        simp only [read_of_null hnull, hf, false_or, List.forall_mem_cons, hnull, true_and]
        split <;> rfl
      | false => simp [read_of_ne hf hnull, hf, hnull, refuse, bind, Except.bind]

end Row

/-! ## Sessions -/

namespace Session

open Columnar.Action

/-- That a session shows well-formed rows in memory under a name, and that their data can be brought. -/
structure Offers (s : Session) (v : String) (c : Column) (rows : List Row) : Prop where
  coherent : s.Coherent
  shown : s.shown? v = some c
  holds : c.Holds rows
  inMemory : c.InMemory
  brought : ∃ s', (materialize v).exec s = (.ok c.payload, s')

end Session

namespace Action

open Session

variable {s s' : Session} {v : String} {c : Column} {rows : List Row} {f : Primitive} {i : Nat}

theorem answer_map {α β : Type} (g : α → β) (x : Action α) (s : Session) :
    ((g <$> x).exec s).1 = (x.exec s).1.map g := by
  rw [map_eq_pure_bind, exec_bind]
  rcases x.exec s with ⟨_ | _, _⟩ <;> rfl

/-- **Data is brought once.** -/
theorem exec_materialize_again {p : Payload} (h : (materialize v).exec s = (.ok p, s')) :
    (materialize v).exec s' = (.ok p, s') := by
  cases hv : s.storage? v with
  | none =>
    rw [materialize, exec_bind_error (exec_storage_none hv)] at h
    cases h
  | some found =>
    obtain ⟨id, st⟩ := found
    cases hplace : st.place with
    | host q =>
      rw [exec_materialize_host hv (.inl hplace)] at h
      obtain ⟨hq, rfl⟩ := Prod.mk.inj h
      rw [exec_materialize_host hv (.inl hplace), hq]
    | both q d =>
      rw [exec_materialize_host hv (.inr ⟨d, hplace⟩)] at h
      obtain ⟨hq, rfl⟩ := Prod.mk.inj h
      rw [exec_materialize_host hv (.inr ⟨d, hplace⟩), hq]
    | device d =>
      rw [exec_materialize_device hv hplace, exec_fetch] at h
      split at h
      next => cases h
      next buffers r _ =>
        obtain ⟨hp, rfl⟩ := Prod.mk.inj h
        obtain rfl := Except.ok.inj hp
        have hst : (((s.log (.materializing st.shape.rows)).setRuntime d.runtime r).setStorage id
            { st with place := .both (.ofBuffers st.shape buffers) d }).storages.find? id =
            some { st with place := .both (.ofBuffers st.shape buffers) d } := by
          rw [find?_setStorage, if_pos rfl]
        exact exec_materialize_host (storage?_eq_some.mpr ⟨(storage?_eq_some.mp hv).1, hst⟩) (.inr ⟨d, rfl⟩)

end Action

namespace Session.Offers

open Columnar.Action

variable {s : Session} {v : String} {c : Column} {rows : List Row} {f : Primitive} {i : Nat}

/-- Once the data is brought, it is offered again. -/
theorem materialize (h : s.Offers v c rows) :
    ∃ s', (Action.materialize v).exec s = (.ok c.payload, s') ∧ s'.Offers v c rows := by
  obtain ⟨s', hs'⟩ := h.brought
  obtain ⟨hsound, hlater, -⟩ := safe_materialize h.coherent.sound v
  rw [hs'] at hsound hlater
  exact ⟨s', hs', hsound.coherent, hlater.shown? h.shown, h.holds, h.inMemory, s',
    exec_materialize_again hs'⟩

/-- Memory has no room for more rows than an address counts bytes. -/
theorem rows_lt (h : s.Offers v c rows) : c.rows < 2 ^ addressBits :=
  h.inMemory.rows_lt h.holds

/-- Whether a row is null. -/
theorem isNull (h : s.Offers v c rows) (hi : i < rows.length) :
    ∃ s', (Action.isNull v i).exec s = (.ok rows[i].null, s') ∧ s'.Offers v c rows := by
  have hcheck := Column.checkIndex_of_lt (h.holds.length ▸ hi)
  have hnull := h.holds.null hi
  simp only [Action.isNull, exec_bind, exec_shape h.coherent h.shown, exec_act, hcheck]
  split
  next hbits =>
    have hnone : c.payload.validity = none := by simpa [Column.shape] using hbits
    rw [Payload.isNull, hnone] at hnull
    exact ⟨s, by rw [← Except.ok.inj hnull, exec_pure], h⟩
  next =>
    obtain ⟨s', hs', h'⟩ := h.materialize
    exact ⟨s', by simp only [exec_bind, hs', exec_act, hnull], h'⟩

/-- The element of a row, in the form of the vector. -/
theorem element (h : s.Offers v c rows) (hf : c.kind.primitive? = some f) (hi : i < rows.length) :
    ∃ s', (Action.element v f i).exec s = (.ok (f.decode rows[i].cell), s') ∧ s'.Offers v c rows := by
  have hcheck := Column.checkIndex_of_lt (h.holds.length ▸ hi)
  have hform : c.shape.checkForm f = .ok () := Outcome.check_eq_ok.mpr (Kind.storage_eq_kind.mpr hf)
  have hread : c.payload.element f i = .ok (f.decode rows[i].cell) := by
    rw [Payload.element_lay hf h.holds.elements h.holds.isCell (by simpa using hi), List.getElem_map]
  obtain ⟨s', hs', h'⟩ := h.materialize
  refine ⟨s', ?_, h'⟩
  simp only [Action.element, exec_bind, exec_shape h.coherent h.shown, exec_act, hcheck, hform, hs', hread]

/-- No row has an element in another form. -/
theorem element_of_ne (h : s.Offers v c rows) (hf : c.kind.storage ≠ f.kind) (hi : i < rows.length) :
    (Action.element v f i).exec s = (.error (.fault (.refused (.wrongKind c.kind f.kind))), s) := by
  have hcheck := Column.checkIndex_of_lt (h.holds.length ▸ hi)
  have hform : c.shape.checkForm f = refuse (.wrongKind c.kind f.kind) := if_neg hf
  simp only [Action.element, exec_bind, exec_shape h.coherent h.shown, exec_act, hcheck, hform, refuse]

/-- **A scan reads row by row.** -/
theorem scanRows (h : s.Offers v c rows) (f : Primitive) {start count : Nat}
    (hrange : start + count ≤ rows.length) : ((Action.scanRows v f start count).exec s).1 =
      (((rows.drop start).take count).mapM (Row.read c.kind f)).mapError .fault := by
  -- The rows left over are read in whatever session the first of them leaves, which offers them too.
  induction count generalizing s start with
  | zero => rfl
  | succ count ih =>
    have hi : start < rows.length := by omega
    obtain ⟨t, ht, hoffers⟩ := h.isNull hi
    rw [List.drop_eq_getElem_cons hi, List.take_succ_cons, List.mapM_cons]
    simp only [Action.scanRows, exec_bind, ht]
    have hrest {t : Session} (ht : t.Offers v c rows) (first : Option f.Carrier) :
        ((List.cons first <$> Action.scanRows v f (start + 1) count).exec t).1 =
          ((((rows.drop (start + 1)).take count).mapM (Row.read c.kind f)).map (List.cons first)).mapError
            .fault := by
      rw [answer_map, ih ht (by omega)]
      cases ((rows.drop (start + 1)).take count).mapM (Row.read c.kind f) <;> rfl
    cases hnull : rows[start].null with
    | true =>
      simp only [Row.read_of_null hnull, Row.element, hnull, if_true, pure_bind, bind_pure_comp,
        hrest hoffers]
      rfl
    | false =>
      by_cases hf : c.kind.storage = f.kind
      · obtain ⟨u, hu, hoffers⟩ := hoffers.element (Kind.storage_eq_kind.mp hf) hi
        simp only [Row.read_of_form hf, Row.element, hnull, Bool.false_eq_true, if_false, bind_map_left,
          bind_pure_comp, exec_bind, hu, hrest hoffers]
        rfl
      · simp only [Row.read_of_ne hf hnull, Bool.false_eq_true, if_false, bind_map_left, exec_bind,
          hoffers.element_of_ne hf hi]
        rfl

/-- **A scan** of rows that there are. -/
theorem scan (h : s.Offers v c rows) (f : Primitive) {start count : Nat} (hrange : start + count ≤ c.rows) :
    ((Action.scan v f start count).exec s).1 =
      (((rows.drop start).take count).mapM (Row.read c.kind f)).mapError .fault := by
  have hcheck : c.shape.checkRange start count = .ok () := if_pos hrange
  have hroom : ¬ maxSize < count * slotWidth f := by
    have hrows := h.rows_lt
    have hwidth : slotWidth f ≤ 16 := by
      cases f with
      | int w => cases w <;> decide
      | float p => cases p <;> decide
      | bool => decide
    have hbytes := Nat.mul_le_mul_left count hwidth
    simp only [addressBits, maxSize, indexBits] at hrows ⊢
    omega
  simp only [Action.scan, exec_bind, exec_shape h.coherent h.shown, exec_act, hcheck, if_neg hroom]
  exact h.scanRows f (h.holds.length ▸ hrange)

/-- What a scan answers, by the form that is asked for and the rows that there are. -/
theorem scan_eq (h : s.Offers v c rows) (f : Primitive) {start count : Nat}
    (hrange : start + count ≤ c.rows) : ((Action.scan v f start count).exec s).1 =
      if c.kind.storage = f.kind ∨ ∀ r ∈ (rows.drop start).take count, r.null then
        .ok (((rows.drop start).take count).map (Row.element f))
      else .error (.fault (.refused (.wrongKind c.kind f.kind))) := by
  rw [h.scan f hrange, Row.mapM_read]
  split <;> rfl

/-- Of a range with an element in it, only the form matters. -/
theorem scan_ok_iff (h : s.Offers v c rows) (f : Primitive) {start count : Nat}
    (hrange : start + count ≤ c.rows) (hvalue : ∃ r ∈ (rows.drop start).take count, r.null = false) :
    (∃ es, ((Action.scan v f start count).exec s).1 = .ok es) ↔ c.kind.storage = f.kind := by
  have hnulls : ¬ ∀ r ∈ (rows.drop start).take count, r.null := by
    obtain ⟨r, hr, hnull⟩ := hvalue
    exact fun hall => absurd (hall r hr) (by simp [hnull])
  rw [h.scan_eq f hrange]
  simp only [hnulls, or_false]
  split <;> simp [*]

end Session.Offers

/-! ## Every reachable session -/

open Session Columnar.Action

/-- **Scans.** In every session that commands lead to, a scan of rows of a vector in memory,
whose data can be brought, answers with their elements, `none` for null rows, if the form is
that of the vector or if all the rows are null. It is refused with the kind of the vector and that of
the form just if these differ and one of the rows is not null. So of two vectors of one kind with as
many rows, wherever they are, a scan of the same rows succeeds on both or on neither, as long as there
is an element in either range. -/
theorem scan_of_reachable {s : Session} (hs : s.Reachable .unlimited) {v : String} {c : Column}
    (hc : s.shown? v = some c) (hmemory : c.InMemory) {p : Payload} {s' : Session}
    (hp : (materialize v).exec s = (.ok p, s')) :
    ∃ rows, s.Offers v c rows ∧ ∀ (f : Primitive) (start count : Nat), start + count ≤ c.rows →
      let range := (rows.drop start).take count
      let answer := ((scan v f start count).exec s).1
      answer = (if c.kind.storage = f.kind ∨ ∀ r ∈ range, r.null then .ok (range.map (Row.element f))
        else .error (.fault (.refused (.wrongKind c.kind f.kind)))) ∧
      (answer = .error (.fault (.refused (.wrongKind c.kind f.kind))) ↔
        c.kind.storage ≠ f.kind ∧ ∃ r ∈ range, r.null = false) ∧
      ∀ (t : Session) (w : String) (d : Column) (rows' : List Row), t.Offers w d rows' →
        d.kind = c.kind → d.rows = c.rows → (∃ r ∈ range, r.null = false) →
        (∃ r ∈ (rows'.drop start).take count, r.null = false) →
        ((∃ es, answer = .ok es) ↔ ∃ es, ((scan w f start count).exec t).1 = .ok es) := by
  have hsound := hs.sound invariant_wellFormed
  have hcoherent := hsound.coherent
  obtain ⟨rows, hheld⟩ := (hsound.shown hc).holds
  obtain rfl := payload_of_materialize hcoherent hc (by rw [hp])
  have hoffers : s.Offers v c rows := ⟨hcoherent, hc, hheld, hmemory, s', hp⟩
  refine ⟨rows, hoffers, fun f start count hrange => ⟨hoffers.scan_eq f hrange, ?_,
    fun t w d rows' hoffers' hkind hrows hvalue hvalue' => ?_⟩⟩
  · rw [hoffers.scan_eq f hrange]
    split
    next h =>
      rcases h with hform | hnulls
      · simp [hform]
      · simpa using fun _ => hnulls
    next h => simpa [not_or] using h
  · rw [hoffers.scan_ok_iff f hrange hvalue, hoffers'.scan_ok_iff f (hrows ▸ hrange) hvalue', hkind]

set_option maxRecDepth 4000 in
/-- Two rows of 16 bits, one of them null, and neither of them in 32 bits. -/
theorem scan_of_shorts :
    let s := (Session.run { config := none } [
      .make (.ofParts (.int .w16) 2 [1, 0, 2, 0] (some [0xFE])) "v"]).2
    s.Reachable .unlimited ∧ ((scan "v" (.int .w16) 0 2).exec s).1 = .ok [none, some (2 : BitVec 16)] ∧
      ((scan "v" (.int .w32) 0 2).exec s).1 =
        .error (.fault (.refused (.wrongKind (.int .w16) (.int .w32)))) := by
  intro s
  have hs : s.Reachable .unlimited := by
    refine (Session.Reachable.start none).run ?_
    simp [Command.Within]
  have hc : s.shown? "v" = some ⟨.int .w16, 2, 1, ⟨.fixed [1, 0, 2, 0],
      some ⟨0xFE :: List.replicate 63 0xFF⟩⟩⟩ := rfl
  have hmemory : Column.InMemory ⟨.int .w16, 2, 1, ⟨.fixed [1, 0, 2, 0],
      some ⟨0xFE :: List.replicate 63 0xFF⟩⟩⟩ := by
    unfold Column.InMemory
    decide
  have hbrought : (materialize "v").exec s = (.ok ⟨.fixed [1, 0, 2, 0],
      some ⟨0xFE :: List.replicate 63 0xFF⟩⟩, s) := rfl
  obtain ⟨rows, hoffers, hscan⟩ := scan_of_reachable hs hc hmemory hbrought
  have hflags : [true, false] = rows.map Row.null := hoffers.holds.flags
  have hvalue : ∃ r ∈ (rows.drop 0).take 2, r.null = false := by
    have hfalse : false ∈ rows.map Row.null := hflags ▸ by decide
    obtain ⟨r, hr, hnull⟩ := List.mem_map.mp hfalse
    rw [List.drop_zero, List.take_of_length_le (Nat.le_of_eq hoffers.holds.length)]
    exact ⟨r, hr, hnull⟩
  exact ⟨hs, rfl, (hscan (.int .w32) 0 2 (by decide)).2.1.mpr ⟨by decide, hvalue⟩⟩

set_option maxRecDepth 4000 in
/-- Two vectors of 32 bits that are the same but for their validity bits: in 64 bits, the one is
answered for its null row, and the other is refused. -/
theorem scan_of_masked :
    let s := (Session.run { config := none } [
      .make (.ofParts (.int .w32) 1 [7, 0, 0, 0] (some [0])) "v",
      .make (.ofParts (.int .w32) 1 [7, 0, 0, 0] (some [0xFF])) "w"]).2
    s.Reachable .unlimited ∧ (∃ c d, s.shown? "v" = some c ∧ s.shown? "w" = some d ∧
      c.WellFormed ∧ d.WellFormed ∧ c.kind = .int .w32 ∧ d.kind = c.kind ∧ d.rows = c.rows ∧
      d.payload.elements = c.payload.elements) ∧
      ((scan "v" (.int .w64) 0 1).exec s).1 = .ok [none] ∧
      ((scan "w" (.int .w64) 0 1).exec s).1 =
        .error (.fault (.refused (.wrongKind (.int .w32) (.int .w64)))) := by
  intro s
  have hs : s.Reachable .unlimited := by
    refine (Session.Reachable.start none).run ?_
    simp [Command.Within]
  have hv_well := Column.ofParts_wellFormed
    (show Column.ofParts (.int .w32) 1 [7, 0, 0, 0] (some [0]) = _ from rfl)
  have hw_well := Column.ofParts_wellFormed
    (show Column.ofParts (.int .w32) 1 [7, 0, 0, 0] (some [0xFF]) = _ from rfl)
  have hv : s.shown? "v" = some ⟨.int .w32, 1, 1, ⟨.fixed [7, 0, 0, 0],
      some ⟨0xFE :: List.replicate 63 0xFF⟩⟩⟩ := rfl
  have hw : s.shown? "w" = some ⟨.int .w32, 1, 0, ⟨.fixed [7, 0, 0, 0],
      some ⟨0xFF :: List.replicate 63 0xFF⟩⟩⟩ := rfl
  exact ⟨hs, ⟨_, _, hv, hw, hv_well, hw_well, rfl, rfl, rfl, rfl⟩, rfl, rfl⟩

end Columnar
