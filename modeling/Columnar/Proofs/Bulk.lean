/-
Adding rows at once, and one by one.

Every way to add rows is a list of entries, and each entry could be added alone (`Entry.single`).
What is checked once for all of them is checked again for each, and passes (`Builder.foldlM_single`);
what is written is the same then, entry by entry. Only a fill is written in one go, and its bytes are
those of its entries (`Builder.fill_same`). Neither way touches anything but the builder
(`bulk_of_reachable`).
-/
import Columnar.Proofs.Refusals

namespace Columnar

/-! ## Entries alone -/

/-- An entry as an addition of its own. -/
def Entry.single : Entry → Rows
  | element f v => .value f v
  | null => .null
  | text s => .text s

theorem Entry.entries_single (e : Entry) : e.single.entries = [e] := by
  cases e <;> rfl

theorem Entry.count_single (e : Entry) : e.single.count = 1 := by
  rw [Rows.count, entries_single, List.length_singleton]

theorem Entry.textSize_single (e : Entry) : e.single.textSize = e.size := by
  rw [Rows.textSize, entries_single]
  rfl

/-- A kind objects to no entry that suits it. -/
theorem Entry.objection?_single {e : Entry} {k : Kind} (h : e.Suits k) :
    e.single.demand.objection? k = none := by
  cases e with
  | element f v => exact if_pos (Kind.storage_eq_kind.mpr h)
  | null => rfl
  | text s => exact if_pos h

/-- All entries of rows suit a kind that does not object to them. -/
theorem Rows.suits_of_demand {r : Rows} {k : Kind} (h : r.demand.objection? k = none) :
    ∀ e ∈ r.entries, e.Suits k := by
  cases r with
  | null | nulls _ => simp [entries, Entry.Suits]
  | value f _ | repeated f _ _ | values f _ =>
    simp [entries, Entry.Suits, Demand.primitive?_of_form h]
  | options f vs =>
    exact Entry.forall_mem_map_ofOption trivial (fun _ => Demand.primitive?_of_form h) vs
  | text _ | texts _ => simp [entries, Entry.Suits, Demand.eq_of_kind h]
  | optionTexts ss => exact Entry.forall_mem_map_ofOption trivial (fun _ => Demand.eq_of_kind h) ss

namespace Builder

variable {b b' c : Builder} {e : Entry} {f : Primitive}

/-! ## One by one -/

theorem TextFits.mono {m n : Nat} (h : b.TextFits n) (hle : m ≤ n) : b.TextFits m :=
  fun offsets text he => Nat.le_trans (Nat.add_le_add_left hle _) (h offsets text he)

/-- What an entry leaves as it was, and that it takes one row. -/
theorem push_eq_ok (h : b.push e = .ok c) :
    c.kind = b.kind ∧ c.capacity = b.capacity ∧ c.phase = b.phase ∧ c.rows = b.rows + 1 := by
  cases e with
  | null =>
    simp only [push, pushNull, Outcome.bind_eq_ok, Outcome.pure_eq_ok] at h
    obtain ⟨v, -, rfl⟩ := h
    exact ⟨rfl, rfl, rfl, rfl⟩
  | _ =>
    cases h
    exact ⟨rfl, rfl, rfl, rfl⟩

/-- The text of a builder grows by that of the entry. -/
theorem text_of_push (h : b.push e = .ok c) {offsets : List UInt32} {text : Buffer}
    (he : c.elements = .strings offsets text) :
    ∃ offsets' text', b.elements = .strings offsets' text' ∧ text.length = text'.length + e.size := by
  cases hold : b.elements with
  | fixed buffer =>
    cases e with
    | null =>
      simp only [push, pushNull, hold, Outcome.bind_eq_ok, Outcome.pure_eq_ok] at h
      obtain ⟨v, -, rfl⟩ := h
      cases he
    | _ =>
      cases h
      simp only [pushElement, withBytes, pushText, hold, reduceCtorEq] at he
  | strings offsets' text' =>
    refine ⟨offsets', text', rfl, ?_⟩
    cases e with
    | element g v =>
      cases h
      simp only [pushElement, withBytes, hold, Elements.strings.injEq] at he
      rw [← he.2]
      rfl
    | null =>
      simp only [push, pushNull, hold, Outcome.bind_eq_ok, Outcome.pure_eq_ok] at h
      obtain ⟨v, -, rfl⟩ := h
      cases he
      rfl
    | text s =>
      cases h
      simp only [pushText, hold, Elements.strings.injEq] at he
      rw [← he.2, Buffer.length_append]
      rfl

theorem TextFits.push {n : Nat} (hfits : b.TextFits (e.size + n)) (h : b.push e = .ok c) :
    c.TextFits n := by
  intro offsets text he
  obtain ⟨offsets', text', hold, hlength⟩ := text_of_push h he
  have hroom := hfits offsets' text' hold
  omega

/-- **An entry alone** is written if it suits and there is room for it. -/
theorem append_single (hopen : b.phase = .opened) (hsuits : e.Suits b.kind)
    (hroom : b.rows + 1 ≤ b.capacity) (hfits : b.TextFits e.size) : b.append e.single = b.push e := by
  have hnone : b.objection? e.single.demand e.single.count = none :=
    objection?_eq_none.mpr ⟨hopen, Entry.objection?_single hsuits, by rwa [Entry.count_single]⟩
  have hfold : b.write e.single = [e].foldlM push b := by cases e <;> rfl
  rw [append_of_none (by rwa [Entry.textSize_single]) hnone, hfold, List.foldlM_cons]
  exact bind_pure _

/-- **Entries one by one** pass their checks if there is room for all. -/
theorem foldlM_single {es : List Entry} (hopen : b.phase = .opened) (hsuits : ∀ e ∈ es, e.Suits b.kind)
    (hroom : b.rows + es.length ≤ b.capacity) (hfits : b.TextFits (total (es.map Entry.size))) :
    (es.map Entry.single).foldlM append b = es.foldlM push b := by
  -- An entry that is written leaves the builder open, and with room for the entries behind it.
  induction es generalizing b with
  | nil => rfl
  | cons e es ih =>
    rw [List.forall_mem_cons] at hsuits
    rw [List.length_cons] at hroom
    rw [List.map_cons, total] at hfits
    rw [List.map_cons, List.foldlM_cons, List.foldlM_cons,
      append_single hopen hsuits.1 (by omega) (hfits.mono (Nat.le_add_right _ _))]
    cases hc : b.push e with
    | error fault => rfl
    | ok c =>
      obtain ⟨hkind, hcapacity, hphase, hrows⟩ := push_eq_ok hc
      exact ih (hphase.trans hopen) (hkind ▸ hsuits.2) (by omega) (hfits.push hc)

/-! ## In one go -/

/-- That two builders hold the same: all that can be told of them, apart from storage that is only set
aside. -/
structure SameContent (b c : Builder) : Prop where
  shape : b.shape = c.shape
  capacity : b.capacity = c.capacity
  phase : b.phase = c.phase
  payload : b.payload = c.payload

theorem SameContent.refl (b : Builder) : b.SameContent b := ⟨rfl, rfl, rfl, rfl⟩

/-- Elements one by one. -/
theorem foldlM_element {buffer : Buffer} (he : b.elements = .fixed buffer) (vs : List f.Carrier) :
    ∃ buffer', (vs.map (.element f)).foldlM push b =
        .ok { b with elements := .fixed buffer', rows := b.rows + vs.length } ∧
      buffer'.toList = buffer.toList ++ (vs.map f.encode).flatten := by
  induction vs generalizing b buffer with
  | nil => exact ⟨buffer, by rw [← he]; rfl, by simp⟩
  | cons v vs ih =>
    have hpushed : (b.pushElement f v).elements = .fixed (buffer.append (f.encode v)) := by
      simp only [pushElement, withBytes, he]
    obtain ⟨buffer', hfold, hlist⟩ := ih hpushed
    refine ⟨buffer', ?_, ?_⟩
    · refine Eq.trans hfold ?_
      simp only [pushElement, List.length_cons, Nat.add_assoc, Nat.add_comm 1]
    · rw [hlist, Buffer.toList_append, List.map_cons, List.flatten_cons, List.append_assoc]

/-- **A fill** holds what its entries do one by one. -/
theorem fill_same {buffer : Buffer} (he : b.elements = .fixed buffer) {v : f.Carrier} {n : Nat}
    (h : b.pushRepeated f v n = .ok b') :
    ∃ c, (Rows.repeated f v n).entries.foldlM push b = .ok c ∧ b'.SameContent c := by
  obtain ⟨e, rfl, hfixed, -⟩ := pushRepeated_eq_ok h
  obtain ⟨filled, hfilled, rfl⟩ := hfixed buffer he
  obtain ⟨buffer', hfold, hlist⟩ := foldlM_element he (List.replicate n v)
  rw [List.map_replicate] at hfold
  rw [List.map_replicate, ← Buffer.toList_appendRepeated? hfilled] at hlist
  refine ⟨_, hfold, by simp [shape], rfl, rfl, ?_⟩
  simp only [payload, Elements.finish, Elements.map, hlist]

/-- **Rows at once** hold what their entries do one by one, and storage is set aside in another way
only for a fill. -/
theorem Holds.append_same {k : Kind} {n : Nat} {rows : List Row} {present : Bool}
    (h : b.Holds k n rows present) {r : Rows} (hnone : b.objection? r.demand r.count = none)
    (hfits : b.TextFits r.textSize) :
    ∃ b' c, b.append r = .ok b' ∧ (r.entries.map Entry.single).foldlM Builder.append b = .ok c ∧
      b'.SameContent c ∧ ((∀ f v n, r ≠ .repeated f v n) → b' = c) := by
  obtain ⟨hopen, hdemand, hroom⟩ := objection?_eq_none.mp hnone
  obtain ⟨b', hb'⟩ := h.append_ok hfits hnone
  have hwrite : b.write r = .ok b' := append_of_none hfits hnone ▸ hb'
  rw [foldlM_single hopen (Rows.suits_of_demand hdemand) hroom hfits]
  rcases write_cases b r with ⟨hfold, -⟩ | ⟨f, v, m, rfl⟩
  · exact ⟨b', b', hb', hfold.symm.trans hwrite, .refl b', fun _ => rfl⟩
  · obtain ⟨buffer, he⟩ := Elements.eq_fixed_of_suits
      (Demand.primitive?_of_form hdemand) (h.kind ▸ h.suits)
    obtain ⟨c, hc, hsame⟩ := fill_same he hwrite
    exact ⟨b', c, hb', hc, hsame, fun hne => absurd rfl (hne f v m)⟩

end Builder

/-! ## Sessions -/

namespace Session

open Columnar.Action

variable {s : Session} {name : String} {b c : Builder}

theorem step_append (hb : s.builders.find? name = some b) {r : Rows} (h : b.append r = .ok c) :
    s.step (.append name (.rows r)) = (.builder c none, s.setBuilder name c) := by
  simp only [step_eq_exec, Action.reply, exec_append_rows, exec_addTo hb, extended, h, exec_act]

/-- **Additions one after the other** change the builder, and nothing else. -/
theorem run_appends (hb : s.builders.find? name = some b) {rs : List Rows}
    (h : rs.foldlM Builder.append b = .ok c) :
    let t := (s.run (rs.map fun r => .append name (.rows r))).2
    t.builders.find? name = some c ∧
      (∀ other, other ≠ name → t.builders.find? other = s.builders.find? other) ∧
      t = { s with builders := t.builders } := by
  induction rs generalizing s b with
  | nil =>
    obtain rfl : b = c := Outcome.pure_eq_ok.mp h
    exact ⟨hb, fun _ _ => rfl, rfl⟩
  | cons r rs ih =>
    rw [List.foldlM_cons, Outcome.bind_eq_ok] at h
    obtain ⟨d, hd, h⟩ := h
    have hstep := step_append hb hd
    have hrun : (s.run ((r :: rs).map fun r => .append name (.rows r))).2 =
        ((s.setBuilder name d).run (rs.map fun r => .append name (.rows r))).2 := by
      rw [List.map_cons, run_cons_of_ne (by rw [hstep]; simp), hstep]
    obtain ⟨hfound, hothers, hrest⟩ := ih (s := s.setBuilder name d) (Table.find?_insert_self _ _ _) h
    rw [hrun]
    exact ⟨hfound, fun other hne => (hothers other hne).trans (Table.find?_insert_of_ne _ _ hne), hrest⟩

end Session

/-! ## Every reachable session -/

open Session Columnar.Action

/-- **Adding rows at once is adding them one by one.** In every session that commands lead to, rows
that a builder has no objection to, and whose text its offsets reach the end of, are taken either way,
which changes the builder and nothing else. Both ways lead to builders with the same content, and to
the very same builder but for a fill, which may set storage aside in other steps. -/
theorem bulk_of_reachable {s : Session} (hs : s.Reachable .unlimited) {name : String} {b : Builder}
    (hb : s.builders.find? name = some b) {r : Rows} (hnone : b.objection? r.demand r.count = none)
    (hfits : b.TextFits r.textSize) :
    ∃ b' c t, b.append r = .ok b' ∧ (r.entries.map Entry.single).foldlM Builder.append b = .ok c ∧
      s.step (.append name (.rows r)) = (.builder b' none, s.setBuilder name b') ∧
      ((s.run (r.entries.map fun e => .append name (.rows e.single))).2 = t ∧
        t.builders.find? name = some c ∧
        (∀ other, other ≠ name → t.builders.find? other = s.builders.find? other) ∧
        t = { s with builders := t.builders }) ∧
      b'.SameContent c ∧ ((∀ f v n, r ≠ .repeated f v n) → b' = c) := by
  have hopen := (Builder.objection?_eq_none.mp hnone).1
  obtain ⟨rows, present, hholds⟩ := (hs.sound invariant_wellFormed).builders name b hb hopen
  obtain ⟨b', c, hb', hc, hsame, heq⟩ := hholds.append_same hnone hfits
  have hsingles := run_appends hb hc
  rw [List.map_map] at hsingles
  exact ⟨b', c, _, hb', hc, step_append hb hb', ⟨rfl, hsingles⟩, hsame, heq⟩

/-- A fill of three rows, after an element and a null, holds the same as the three rows one by one. -/
theorem bulk_of_shorts :
    let s := (Session.run { config := none } [.newBuilder "b" (.int .w16) 5 false,
      .append "b" (.rows (.value (.int .w16) (3 : BitVec 16))), .append "b" (.rows .null)]).2
    let r : Rows := .repeated (.int .w16) (7 : BitVec 16) 3
    s.Reachable .unlimited ∧ ∃ b b' c, s.builders.find? "b" = some b ∧ b.append r = .ok b' ∧
      (r.entries.map Entry.single).foldlM Builder.append b = .ok c ∧ b'.SameContent c ∧
      b'.shape = ⟨.int .w16, 5, 1, true⟩ ∧
      b'.payload.elements = .fixed [3, 0, 0, 0, 7, 0, 7, 0, 7, 0] := by
  intro s r
  have hs : s.Reachable .unlimited := by
    refine (Session.Reachable.start none).run ?_
    simp [Command.Within]
  have hb : s.builders.find? "b" = some _ := rfl
  obtain ⟨b', c, t, hb', hc, -, -, hsame, -⟩ :=
    bulk_of_reachable hs hb (r := r) rfl fun _ _ he => by cases he
  refine ⟨hs, _, b', c, hb, hb', hc, hsame, ?_⟩
  obtain rfl := Except.ok.inj hb'
  exact ⟨rfl, rfl⟩

end Columnar
