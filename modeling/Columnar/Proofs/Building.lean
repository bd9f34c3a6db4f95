/-
Builders, and what additions make of their rows.

`Builder.Marked` is the invariant of an open builder: its validity bits mark the
rows that were added as null, and its null count is their number. It holds of a
new builder and is kept by every addition (`Marked.append`,
`Marked.appendColumn`), whatever the elements become. `Builder.Holds` says of
the elements that they are the rows; it is kept too (`Holds.append`,
`Holds.appendColumn`). What passes its checks is written: storage for all rows
has been set aside, so that a fill has room (`Holds.write_ok`), and a column is
taken over if offsets reach the end of its text (`Holds.writeColumn_ok`).
-/
import Columnar.Proofs.Entries

namespace Columnar.Builder

/-! ## Marks -/

/-- An open builder of a kind in which rows with these null marks have been put;
`present` tells whether it has validity bits. -/
structure Marked (b : Builder) (k : Kind) (n : Nat) (marks : List Bool) (present : Bool) : Prop where
  opened : b.phase = .opened
  kind : b.kind = k
  capacity : b.capacity = n
  rows : b.rows = marks.length
  room : marks.length ≤ n
  storage : Elements.reserved k n ≤ maxSize
  suits : b.elements.Suits k
  flags : Bitmap.nullFlags b.validity marks.length = marks
  nulls : b.nulls = marks.count true
  bits : b.validity.isSome = present
  fresh : ∀ v, b.validity = some v → n ≤ v.capacity ∧ v.FreshFrom marks.length

/-- What a new builder is. -/
theorem create_eq_ok {k : Kind} {n : Nat} {withBits : Bool} {b : Builder}
    (h : create k n withBits = .ok b) :
    Elements.reserved k n ≤ maxSize ∧
      b = { new k n with validity := if withBits then some (Bitmap.allValid n) else none } := by
  simp only [create, Outcome.bind_eq_ok, Outcome.pure_eq_ok, Elements.requireStorage_eq_ok] at h
  obtain ⟨-, hstorage, rfl⟩ := h
  refine ⟨hstorage, ?_⟩
  cases withBits <;> rfl

theorem marked_of_create {k : Kind} {n : Nat} {withBits : Bool} {b : Builder}
    (h : create k n withBits = .ok b) : b.Marked k n [] withBits := by
  obtain ⟨hstorage, rfl⟩ := create_eq_ok h
  refine ⟨rfl, rfl, rfl, rfl, Nat.zero_le _, hstorage, Elements.suits_empty k, rfl, rfl, ?_, fun v hv => ?_⟩
  · cases withBits <;> rfl
  · cases withBits with
    | false => cases hv
    | true =>
      obtain rfl : Bitmap.allValid n = v := by simpa using hv
      exact ⟨Bitmap.le_capacity_allValid n, Bitmap.freshFrom_allValid n 0⟩

theorem suits_withBytes {b : Builder} {k : Kind} (h : b.elements.Suits k) (bytes : Bytes) :
    (b.withBytes bytes).Suits k := by
  unfold withBytes
  cases he : b.elements <;> rw [he] at h <;> exact h

theorem suits_pushNull {b b' : Builder} {k : Kind} (h : b.elements.Suits k) (hb : b.pushNull = .ok b') :
    b'.elements.Suits k := by
  simp only [pushNull, Outcome.bind_eq_ok, Outcome.pure_eq_ok] at hb
  obtain ⟨v, -, rfl⟩ := hb
  cases he : b.elements <;> rw [he] at h <;> exact h

theorem suits_pushText {b : Builder} {k : Kind} (h : b.elements.Suits k) (s : String) :
    (b.pushText s).elements.Suits k := by
  unfold pushText
  cases he : b.elements <;> rw [he] at h <;> exact h

theorem kind_push {b b' : Builder} {e : Entry} (hb : b.push e = .ok b') : b'.kind = b.kind := by
  cases e with
  | element f v =>
    cases hb
    rfl
  | null =>
    simp only [push, pushNull, Outcome.bind_eq_ok, Outcome.pure_eq_ok] at hb
    obtain ⟨v, -, rfl⟩ := hb
    rfl
  | text s =>
    cases hb
    rfl

theorem suits_push {b b' : Builder} {k : Kind} {e : Entry} (hs : b.elements.Suits k)
    (hb : b.push e = .ok b') : b'.elements.Suits k := by
  cases e with
  | element f v =>
    cases hb
    exact suits_withBytes hs _
  | null => exact suits_pushNull hs hb
  | text s =>
    cases hb
    exact suits_pushText hs s

theorem suits_close {b : Builder} (hs : b.elements.Suits b.kind) :
    b.close.elements.Suits b.close.kind := by
  unfold close
  split
  · exact hs
  · exact Elements.suits_empty _

/-- Rows are written entry by entry, unless they are repeated. -/
theorem write_cases (b : Builder) (r : Rows) :
    (b.write r = r.entries.foldlM push b ∧ ∀ f v count, r ≠ .repeated f v count) ∨
      ∃ f v count, r = .repeated f v count := by
  cases r with
  | repeated f v count => exact .inr ⟨f, v, count, rfl⟩
  | _ => exact .inl ⟨rfl, by simp⟩

/-- A fill changes the elements and the number of rows. -/
theorem pushRepeated_eq_ok {b b' : Builder} {f : Primitive} {v : f.Carrier} {count : Nat}
    (h : b.pushRepeated f v count = .ok b') :
    ∃ e, b' = { b with elements := e, rows := b.rows + count } ∧
      (∀ buffer, b.elements = .fixed buffer →
        ∃ filled, buffer.appendRepeated? (f.encode v) count = some filled ∧ e = .fixed filled) ∧
      ∀ offsets text, b.elements = .strings offsets text → e = .strings offsets text := by
  unfold pushRepeated at h
  cases he : b.elements with
  | fixed buffer =>
    simp only [he, Outcome.bind_eq_ok, Outcome.map_eq_ok, Outcome.ofOption_eq_ok,
      Outcome.pure_eq_ok] at h
    obtain ⟨e, ⟨filled, hfilled, rfl⟩, rfl⟩ := h
    refine ⟨_, rfl, ?_, fun _ _ hstrings => by cases hstrings⟩
    rintro _ ⟨⟩
    exact ⟨filled, hfilled, rfl⟩
  | strings offsets text =>
    simp only [he, Outcome.bind_eq_ok, Outcome.pure_eq_ok] at h
    obtain ⟨e, rfl, rfl⟩ := h
    exact ⟨_, rfl, fun _ hfixed => (by cases hfixed), fun _ _ hstrings => hstrings⟩

theorem suits_pushRepeated {b b' : Builder} {f : Primitive} {v : f.Carrier} {count : Nat} {k : Kind}
    (hs : b.elements.Suits k) (h : b.pushRepeated f v count = .ok b') : b'.elements.Suits k := by
  obtain ⟨e, rfl, hfixed, hstrings⟩ := pushRepeated_eq_ok h
  cases he : b.elements with
  | fixed buffer =>
    obtain ⟨filled, -, rfl⟩ := hfixed buffer he
    rw [he] at hs
    exact hs
  | strings offsets text =>
    obtain rfl := hstrings offsets text he
    rw [he] at hs
    exact hs

theorem suits_append {b b' : Builder} {k : Kind} (hs : b.elements.Suits k) {r : Rows}
    (hb : b.append r = .ok b') : b'.kind = b.kind ∧ b'.elements.Suits k := by
  obtain ⟨-, -, -, -, hwrite⟩ := append_eq_ok hb
  rcases write_cases b r with ⟨hfold, -⟩ | ⟨f, v, count, rfl⟩
  · rw [hfold] at hwrite
    refine foldlM_track (l := []) (R := fun _ (c : Builder) => c.kind = b.kind ∧ c.elements.Suits k) ?_ ?_
      hwrite
    · intro l e c c' hc he
      exact ⟨(kind_push he).trans hc.1, suits_push hc.2 he⟩
    · exact ⟨rfl, hs⟩
  · have hsuits := suits_pushRepeated hs hwrite
    obtain ⟨e, rfl, -⟩ := pushRepeated_eq_ok hwrite
    exact ⟨rfl, hsuits⟩

namespace Marked

variable {b b' : Builder} {k : Kind} {n : Nat} {marks : List Bool} {present : Bool}

/-- The bits that rows are marked in, made for it or not. -/
theorem validityOrNew (h : b.Marked k n marks present) :
    n ≤ b.validityOrNew.capacity ∧ b.validityOrNew.FreshFrom marks.length ∧
      Bitmap.nullFlags (some b.validityOrNew) marks.length = marks := by
  cases hv : b.validity with
  | some v =>
    have hnew : b.validityOrNew = v := by simp [Builder.validityOrNew, hv]
    rw [hnew, ← hv]
    exact ⟨(h.fresh v hv).1, (h.fresh v hv).2, h.flags⟩
  | none =>
    have hnew : b.validityOrNew = Bitmap.allValid n := by simp [Builder.validityOrNew, hv, h.capacity]
    have hcap := Bitmap.le_capacity_allValid n
    have hflags := h.flags
    rw [hv, Bitmap.nullFlags_none] at hflags
    rw [hnew, Bitmap.nullFlags_allValid (Nat.le_trans h.room hcap), hflags]
    exact ⟨hcap, Bitmap.freshFrom_allValid n _, rfl⟩

/-- Rows that are not null touch no mark. -/
theorem addValid (h : b.Marked k n marks present) {m : Nat} (hroom : marks.length + m ≤ n)
    {e : Elements Buffer} (he : e.Suits k) :
    { b with elements := e, rows := b.rows + m }.Marked k n (marks ++ List.replicate m false)
      present where
  opened := h.opened
  kind := h.kind
  capacity := h.capacity
  rows := by simp [h.rows]
  room := by simpa using hroom
  storage := h.storage
  suits := he
  flags := by
    rw [List.length_append, List.length_replicate, Bitmap.nullFlags_add_valid, h.flags]
    intro v hv
    obtain ⟨hcap, hfresh⟩ := h.fresh v hv
    exact ⟨hfresh, Nat.le_trans hroom hcap⟩
  nulls := by
    rw [List.count_append, h.nulls]
    simp [List.count_replicate]
  bits := h.bits
  fresh v hv := by
    obtain ⟨hcap, hfresh⟩ := h.fresh v hv
    exact ⟨hcap, hfresh.mono (by simp)⟩

/-- A null row is marked. -/
theorem pushNull (h : b.Marked k n marks present) (hroom : marks.length + 1 ≤ n)
    (hb : b.pushNull = .ok b') : b'.Marked k n (marks ++ [true]) true := by
  have hsuits := suits_pushNull h.suits hb
  simp only [Builder.pushNull, Outcome.bind_eq_ok, Outcome.ofOption_eq_ok, Outcome.pure_eq_ok] at hb
  obtain ⟨v, hv, rfl⟩ := hb
  obtain ⟨hcap, hfresh, hflags⟩ := h.validityOrNew
  simp only [Bitmap.clear?, Option.ite_none_right_eq_some, Option.some.injEq, h.rows] at hv
  obtain ⟨-, rfl⟩ := hv
  exact {
    opened := h.opened
    kind := h.kind
    capacity := h.capacity
    rows := by simp [h.rows]
    room := by simpa using hroom
    storage := h.storage
    suits := hsuits
    flags := by simp [Bitmap.nullFlags_clear, hflags]
    nulls := by simp [h.nulls]
    bits := rfl
    fresh := fun v hv => by
      obtain rfl := Option.some.inj hv
      rw [List.length_append, List.length_singleton, Bitmap.capacity_clear]
      exact ⟨hcap, hfresh.clear⟩ }

theorem push (h : b.Marked k n marks present) {e : Entry} (hroom : marks.length + 1 ≤ n)
    (hb : b.push e = .ok b') : b'.Marked k n (marks ++ [e.isNull]) (present || e.isNull) := by
  cases e with
  | null => simpa [Entry.isNull] using h.pushNull hroom hb
  | element f v =>
    cases hb
    simpa [Entry.isNull, pushElement] using h.addValid hroom (suits_withBytes h.suits (f.encode v))
  | text s =>
    cases hb
    simpa [Entry.isNull, pushText] using h.addValid hroom (suits_pushText h.suits s)

/-- **Added rows are marked.** -/
theorem write (h : b.Marked k n marks present) {r : Rows}
    (hroom : marks.length + r.entries.length ≤ n) (hb : b.write r = .ok b') :
    b'.Marked k n (marks ++ r.entries.map Entry.isNull) (present || r.entries.any Entry.isNull) := by
  rcases write_cases b r with ⟨hfold, -⟩ | ⟨f, v, count, rfl⟩
  · rw [hfold] at hb
    have htrack := foldlM_track (l := []) (R := fun l (c : Builder) => marks.length + l.length ≤ n →
      c.Marked k n (marks ++ l.map Entry.isNull) (present || l.any Entry.isNull)) ?_ ?_ hb
    · exact htrack hroom
    · intro l e c c' hc he hroom
      rw [List.length_append, List.length_singleton, ← Nat.add_assoc] at hroom
      have := (hc (Nat.le_of_succ_le hroom)).push (by simpa using hroom) he
      simpa [Bool.or_assoc] using this
    · intro _
      simpa using h
  · simp only [Rows.entries, List.length_replicate, List.map_replicate, List.any_replicate] at hroom ⊢
    have hsuits := suits_pushRepeated h.suits hb
    obtain ⟨e, rfl, -⟩ := pushRepeated_eq_ok hb
    simpa [Entry.isNull] using h.addValid hroom hsuits

end Marked

/-! ## Elements -/

/-- The elements after an entry are those before it and its cell. -/
theorem finish_push {b b' : Builder} {cells : List Bytes} {e : Entry}
    (h : b.elements.finish = .lay b.kind cells) (hs : e.Suits b.kind) (hb : b.push e = .ok b') :
    b'.kind = b.kind ∧ b'.elements.finish = .lay b.kind (cells ++ [e.cell b.kind]) := by
  cases hk : b.kind.primitive? with
  | some f =>
    obtain ⟨buffer, he, hbuffer⟩ := (Elements.finish_eq_lay_of_fixed hk).mp h
    suffices ∃ buffer', b'.kind = b.kind ∧ b'.elements = .fixed buffer' ∧
        buffer'.toList = buffer.toList ++ e.cell b.kind by
      obtain ⟨buffer', hkind, he', hbuffer'⟩ := this
      exact ⟨hkind, (Elements.finish_eq_lay_of_fixed hk).mpr ⟨buffer', he', by simp [hbuffer', hbuffer]⟩⟩
    cases e with
    | element g v =>
      cases hb
      exact ⟨_, rfl, by simp [pushElement, withBytes, he]; rfl, by simp [Entry.cell]⟩
    | null =>
      simp only [push, pushNull, he, Outcome.bind_eq_ok, Outcome.pure_eq_ok] at hb
      obtain ⟨v, -, rfl⟩ := hb
      exact ⟨_, rfl, rfl, by simp [Entry.cell, Kind.stride]⟩
    | text s =>
      rw [show b.kind = .string from hs] at hk
      cases hk
  | none =>
    have hkind := Kind.primitive?_eq_none.mp hk
    rw [hkind] at h hs ⊢
    obtain ⟨text, he, htext⟩ := Elements.finish_eq_lay_string.mp h
    have hlen : text.length = cells.flatten.length := by rw [← htext, Buffer.length_toList]
    suffices ∃ text', b'.kind = .string ∧
        b'.elements = .strings (0 :: Elements.ends 0 (cells ++ [e.cell .string])) text' ∧
        text'.toList = text.toList ++ e.cell .string by
      obtain ⟨text', hkind', he', htext'⟩ := this
      exact ⟨hkind', Elements.finish_eq_lay_string.mpr ⟨text', he', by simp [htext', htext]⟩⟩
    rw [Elements.ends_snoc]
    cases e with
    | element g v => cases hs
    | null =>
      simp only [push, pushNull, he, Outcome.bind_eq_ok, Outcome.pure_eq_ok] at hb
      obtain ⟨v, -, rfl⟩ := hb
      exact ⟨text, hkind, by simp [Entry.cell, Kind.stride, Kind.width?, Kind.primitive?, hlen],
        by simp [Entry.cell, Kind.stride, Kind.width?, Kind.primitive?]⟩
    | text s =>
      cases hb
      exact ⟨text.append (Utf8.encode s), hkind, by simp [pushText, he, Entry.cell, hlen],
        by simp [Entry.cell]⟩

/-- The elements after rows are those before them and the cells of their entries. -/
theorem finish_write {b b' : Builder} {cells : List Bytes} {r : Rows}
    (h : b.elements.finish = .lay b.kind cells) (hs : ∀ e ∈ r.entries, e.Suits b.kind)
    (hb : b.write r = .ok b') :
    b'.elements.finish = .lay b.kind (cells ++ r.entries.map (Entry.cell b.kind)) := by
  rcases write_cases b r with ⟨hfold, -⟩ | ⟨f, v, count, rfl⟩
  · rw [hfold] at hb
    have htrack := foldlM_track (l := []) (R := fun l (c : Builder) => (∀ e ∈ l, e.Suits b.kind) →
      c.kind = b.kind ∧ c.elements.finish = .lay b.kind (cells ++ l.map (Entry.cell b.kind))) ?_ ?_ hb
    · exact (htrack hs).2
    · intro l e c c' hc he hl
      obtain ⟨hkind, hfinish⟩ := hc fun e' he' => hl e' (by simp [he'])
      rw [← hkind] at hfinish ⊢
      have := finish_push hfinish (hkind ▸ hl e (by simp)) he
      simpa using this
    · intro _
      simpa using h
  · obtain ⟨e, rfl, hfixed, hstrings⟩ := pushRepeated_eq_ok hb
    simp only [Rows.entries, List.map_replicate, Entry.cell]
    cases hk : b.kind.primitive? with
    | some g =>
      obtain ⟨buffer, he, hbuffer⟩ := (Elements.finish_eq_lay_of_fixed hk).mp h
      obtain ⟨filled, hfilled, rfl⟩ := hfixed buffer he
      refine (Elements.finish_eq_lay_of_fixed hk).mpr ⟨filled, rfl, ?_⟩
      rw [Buffer.toList_appendRepeated? hfilled, hbuffer, List.flatten_append]
    | none =>
      cases count with
      | zero =>
        rw [Kind.primitive?_eq_none.mp hk] at h ⊢
        obtain ⟨text, he, -⟩ := Elements.finish_eq_lay_string.mp h
        obtain rfl := hstrings _ text he
        simpa [← he] using h
      | succ count =>
        have hform : b.kind.primitive? = some f := hs (.element f v) (by simp [Rows.entries])
        rw [hk] at hform
        cases hform

/-! ## Additions -/

/-- An open builder of a kind that holds these rows. -/
structure Holds (b : Builder) (k : Kind) (n : Nat) (held : List Row) (present : Bool) : Prop extends
    Marked b k n (held.map Row.null) present where
  elements : b.elements.finish = .lay k (held.map Row.cell)
  isRow : ∀ r ∈ held, k.IsRow r
  fits : Elements.Fits k (held.map Row.cell)

theorem holds_of_create {k : Kind} {n : Nat} {withBits : Bool} {b : Builder}
    (h : create k n withBits = .ok b) : b.Holds k n [] withBits where
  toMarked := marked_of_create h
  elements := by
    obtain ⟨-, rfl⟩ := create_eq_ok h
    exact Elements.finish_empty k
  isRow := by simp
  fits _ := Nat.zero_le _

/-- What the rows of a column add to a builder. -/
theorem appendColumn_eq_ok {b b' : Builder} {source : Shape} {p : Payload}
    (h : b.appendColumn source p = .ok b') :
    b.kind = source.kind ∧ b.rows + source.rows ≤ b.capacity ∧
      ∃ e v, b.elements.extend p.elements source.rows b.kind.stride = .ok e ∧
        (∀ theirs, p.validity = some theirs →
          ∃ mine, b.validityOrNew.merge? b.rows theirs source.rows = some mine ∧ v = some mine) ∧
        (p.validity = none → v = b.validity) ∧
        b' = { b with
          elements := e, validity := v, rows := b.rows + source.rows, nulls := b.nulls + source.nulls } := by
  simp only [appendColumn_eq, requireColumn, Outcome.bind_eq_ok, requireOpen_eq_ok, requireKind_eq_ok,
    requireRoom_eq_ok] at h
  obtain ⟨-, ⟨-, -, -, hkind, hroom⟩, hwrite⟩ := h
  exact ⟨hkind, hroom, outcome_writeColumn_eq_ok.mp hwrite⟩

variable {b b' : Builder} {k : Kind} {n : Nat} {marks : List Bool} {rows : List Row} {present : Bool}

theorem opened_of_appendColumn {source : Shape} {p : Payload} (h : b.appendColumn source p = .ok b') :
    b.phase = .opened := by
  simp only [appendColumn_eq, requireColumn, Outcome.bind_eq_ok, requireOpen_eq_ok] at h
  obtain ⟨-, ⟨-, hopen, -⟩, -⟩ := h
  exact hopen

theorem phase_close : b.close.phase ≠ .opened := by
  unfold close
  split
  next h =>
    rw [h]
    decide
  next => simp

theorem Marked.append (h : b.Marked k n marks present) {r : Rows} (hb : b.append r = .ok b') :
    b'.Marked k n (marks ++ r.entries.map Entry.isNull) (present || r.entries.any Entry.isNull) := by
  obtain ⟨-, -, hroom, -, hwrite⟩ := append_eq_ok hb
  exact h.write (by rwa [h.rows, h.capacity] at hroom) hwrite

/-- **Rows taken over from a column** are marked as they are there. -/
theorem Marked.appendColumn (h : b.Marked k n marks present) {c : Column} (hc : c.Counted)
    (hb : b.appendColumn c.shape c.payload = .ok b') :
    b'.Marked k n (marks ++ c.nullFlags) (present || c.payload.validity.isSome) := by
  obtain ⟨hkind, hroom, e, v, he, hsome, hnone, rfl⟩ := appendColumn_eq_ok hb
  rw [h.rows, h.capacity] at hroom
  have hlen : (marks ++ c.nullFlags).length = marks.length + c.rows := by
    rw [List.length_append, c.length_nullFlags]
  obtain ⟨hcap, hfresh, hflags⟩ := h.validityOrNew
  cases hv : c.payload.validity with
  | some theirs =>
    obtain ⟨mine, hmine, rfl⟩ := hsome theirs hv
    rw [h.rows] at hmine
    obtain ⟨hmerged, hsize, hkept⟩ := Bitmap.merge?_eq_some hmine
    exact {
      opened := h.opened
      kind := h.kind
      capacity := h.capacity
      rows := by rw [hlen, h.rows]; rfl
      room := by rwa [hlen]
      storage := h.storage
      suits := Elements.suits_extend h.suits he
      flags := by
        rw [hlen, Column.nullFlags, hv]
        exact hmerged.trans (by rw [hflags]; rfl)
      nulls := by rw [List.count_append, ← h.nulls, ← hc.nulls]; rfl
      bits := by simp
      fresh := fun v hv => by
        obtain rfl := Option.some.inj hv
        rw [hlen, hsize]
        exact ⟨hcap, hkept hfresh⟩ }
  | none =>
    obtain rfl := hnone hv
    have hnull : c.nullFlags = List.replicate c.rows false := by
      rw [Column.nullFlags, hv, Bitmap.nullFlags_none]
    have hzero : c.nulls = 0 := by rw [hc.nulls, hnull]; simp [List.count_replicate]
    have := h.addValid hroom (Elements.suits_extend h.suits he)
    simpa [hnull, Column.shape, hzero] using this

theorem Holds.appendColumn (h : b.Holds k n rows present) {c : Column} (hc : c.Counted)
    {source : List Row} (hs : c.Holds source) (hb : b.appendColumn c.shape c.payload = .ok b') :
    b'.Holds k n (rows ++ source) (present || c.payload.validity.isSome) := by
  have hmarked := h.toMarked.appendColumn hc hb
  rw [hs.flags, ← List.map_append] at hmarked
  obtain ⟨hkind, -, e, v, he, -, -, rfl⟩ := appendColumn_eq_ok hb
  obtain rfl : k = c.kind := h.kind.symm.trans hkind
  have hlen : c.shape.rows = (source.map Row.cell).length := by rw [List.length_map, hs.length]; rfl
  rw [hs.elements, hlen, hkind] at he
  obtain ⟨hfits, helements⟩ := Elements.of_extend_lay h.elements hs.isCell hs.fits he
  rw [← List.map_append] at hfits helements
  exact {
    toMarked := hmarked
    elements := helements
    isRow := fun r hr => (List.mem_append.mp hr).elim (h.isRow r) (hs.isRow r)
    fits := hfits }

/-- **Added rows are held.** -/
theorem Holds.append (h : b.Holds k n rows present) {r : Rows} (hb : b.append r = .ok b') :
    b'.Holds k n (rows ++ r.entries.map (Entry.row k)) (present || r.entries.any Entry.isNull) := by
  have hmarked := h.toMarked.append hb
  obtain ⟨-, hsuits, -, htext, hwrite⟩ := append_eq_ok hb
  obtain rfl := h.kind
  have helements := finish_write h.elements hsuits hwrite
  have hcells : (rows ++ r.entries.map (Entry.row b.kind)).map Row.cell =
      rows.map Row.cell ++ r.entries.map (Entry.cell b.kind) := by
    simp [Function.comp_def, Entry.row]
  exact {
    toMarked := by simpa [Function.comp_def, Entry.row] using hmarked
    elements := by rw [hcells, helements]
    isRow := by
      intro row hrow
      rcases List.mem_append.mp hrow with hrow | hrow
      · exact h.isRow row hrow
      · obtain ⟨e, he, rfl⟩ := List.mem_map.mp hrow
        exact Entry.isRow_row (hsuits e he)
    fits := by
      intro hk
      rw [hcells, List.flatten_append, List.length_append]
      have hold := h.elements
      have hfits := h.fits hk
      rw [hk] at hold hsuits ⊢
      obtain ⟨text, he, htoList⟩ := Elements.finish_eq_lay_string.mp hold
      rw [Entry.length_flatten_cells hsuits]
      have hlen : text.length = (rows.map Row.cell).flatten.length := by
        rw [← htoList, Buffer.length_toList]
      have := htext _ text he (by omega)
      omega }

/-! ## What is written in full -/

theorem Marked.push_ok (h : b.Marked k n marks present) (hroom : marks.length + 1 ≤ n) (e : Entry) :
    ∃ b', b.push e = .ok b' := by
  cases e with
  | element f v => exact ⟨_, rfl⟩
  | text s => exact ⟨_, rfl⟩
  | null =>
    have hcap := h.validityOrNew.1
    have hrows := h.rows
    have hclear : b.validityOrNew.clear? b.rows = some (b.validityOrNew.clear b.rows) :=
      if_pos (by omega)
    simp only [Builder.push, Builder.pushNull, hclear]
    exact ⟨_, rfl⟩

theorem Marked.foldlM_push_ok {es : List Entry} (h : b.Marked k n marks present)
    (hroom : marks.length + es.length ≤ n) : ∃ b', es.foldlM Builder.push b = .ok b' := by
  induction es generalizing b marks present with
  | nil => exact ⟨b, rfl⟩
  | cons e es ih =>
    rw [List.length_cons] at hroom
    obtain ⟨c, hc⟩ := h.push_ok (by omega) e
    obtain ⟨b', hb'⟩ := ih (h.push (by omega) hc) (by rw [List.length_append, List.length_singleton]; omega)
    exact ⟨b', by rw [List.foldlM_cons, hc]; exact hb'⟩

/-- Elements of fixed width take as many bytes as there are rows for them. -/
theorem Holds.length_fixed (h : b.Holds k n rows present) {f : Primitive} (hf : k.primitive? = some f)
    {buffer : Buffer} (he : b.elements = .fixed buffer) : buffer.length = rows.length * f.width := by
  obtain ⟨_, hbuffer, hcontent⟩ := (Elements.finish_eq_lay_of_fixed hf).mp h.elements
  obtain rfl := Elements.fixed.inj (he.symm.trans hbuffer)
  have hcell : ∀ cell ∈ rows.map Row.cell, cell.length = f.width := by
    intro cell hcell
    obtain ⟨r, hr, rfl⟩ := List.mem_map.mp hcell
    exact (Kind.isCell_iff hf _).mp (h.isRow r hr).1
  rw [← Buffer.length_toList, hcontent, Elements.length_flatten_of_uniform hcell, List.length_map]

/-- A fill has room, as storage for all rows has been set aside. -/
theorem Holds.pushRepeated_ok (h : b.Holds k n rows present) {f : Primitive} {v : f.Carrier} {m : Nat}
    (hform : m = 0 ∨ k.primitive? = some f) (hroom : rows.length + m ≤ n) :
    ∃ b', b.pushRepeated f v m = .ok b' := by
  unfold pushRepeated
  cases he : b.elements with
  | strings offsets text => exact ⟨_, rfl⟩
  | fixed buffer =>
    have hsuits := h.suits
    have hstorage := h.storage
    rw [he] at hsuits
    cases hk : k.primitive? with
    | none => exact absurd (Kind.primitive?_eq_none.mp hk) hsuits
    | some g =>
      have hlen := h.length_fixed hk he
      have hadded : (f.encode v).length * m = m * g.width := by
        rcases hform with rfl | hf
        · rw [Nat.mul_zero, Nat.zero_mul]
        · obtain rfl := Option.some.inj (hf.symm.trans hk)
          rw [f.length_encode, Nat.mul_comm]
      have hbytes := aligned_mono (Nat.mul_le_mul_right g.width hroom)
      simp only [Elements.reserved, Kind.width?, hk, Option.map_some] at hstorage
      rw [Nat.add_mul, ← hlen, ← hadded] at hbytes
      simp only [Buffer.appendRepeated?_eq, if_pos (Nat.le_trans hbytes hstorage)]
      exact ⟨_, rfl⟩

/-- **Rows that suit a builder and fit are written**, all of them. -/
theorem Holds.write_ok (h : b.Holds k n rows present) {r : Rows} (hsuits : ∀ e ∈ r.entries, e.Suits k)
    (hroom : rows.length + r.entries.length ≤ n) : ∃ b', b.write r = .ok b' := by
  rcases write_cases b r with ⟨hfold, -⟩ | ⟨f, v, m, rfl⟩
  · rw [hfold]
    exact h.toMarked.foldlM_push_ok (by simpa using hroom)
  · refine h.pushRepeated_ok ?_ (by simpa [Rows.entries] using hroom)
    cases m with
    | zero => exact .inl rfl
    | succ m => exact .inr (hsuits (.element f v) (by simp [Rows.entries]))

/-- **A column that suits a builder and fits is taken over**, if offsets reach the end of the text
then. -/
theorem Holds.writeColumn_ok (h : b.Holds k n rows present) {c : Column} {source : List Row}
    (hc : c.Holds source) (hkind : c.kind = k) (hroom : rows.length + source.length ≤ n)
    (hfits : Elements.Fits k ((rows ++ source).map Row.cell)) :
    ∃ b', (writeColumn c.shape c.payload).outcome b = .ok b' := by
  have hrows : b.rows + c.rows ≤ n := by
    have := h.rows
    rw [List.length_map] at this
    rwa [this, ← hc.length]
  have helements : c.payload.elements = .lay k (source.map Row.cell) := hkind ▸ hc.elements
  obtain ⟨e, he, -⟩ := Elements.extend_lay h.elements (b := source.map Row.cell) (hkind ▸ hc.isCell)
    (by rwa [← List.map_append])
  rw [List.length_map, hc.length, ← helements, ← h.kind] at he
  cases hv : c.payload.validity with
  | none => exact ⟨_, outcome_writeColumn_eq_ok.mpr ⟨e, b.validity, he, by simp [hv], fun _ => rfl, rfl⟩⟩
  | some theirs =>
    obtain ⟨mine, hmine, -⟩ := Bitmap.merge?_ok b.validityOrNew b.rows (hc.covered theirs hv)
      (Nat.le_trans hrows h.validityOrNew.1)
    refine ⟨_, outcome_writeColumn_eq_ok.mpr ⟨e, some mine, he, ?_, by simp [hv], rfl⟩⟩
    intro _ htheirs
    obtain rfl := Option.some.inj (hv.symm.trans htheirs)
    exact ⟨mine, hmine, rfl⟩

/-- **A column that there is room for is added.** -/
theorem Holds.appendColumn_ok (h : b.Holds k n rows present) {c : Column} {source : List Row}
    (hc : c.Holds source) (hkind : c.kind = k) (hroom : rows.length + source.length ≤ n)
    (hfits : Elements.Fits k ((rows ++ source).map Row.cell)) :
    ∃ b', b.appendColumn c.shape c.payload = .ok b' := by
  have hrequire : b.requireColumn c.shape = .ok () := by
    simp only [requireColumn, Outcome.seq_eq_ok, requireOpen_eq_ok, requireKind_eq_ok, requireRoom_eq_ok]
    refine ⟨h.opened, h.kind.trans hkind.symm, ?_⟩
    rw [h.rows, h.capacity, List.length_map, show c.shape.rows = c.rows from rfl, ← hc.length]
    exact hroom
  obtain ⟨b', hb'⟩ := h.writeColumn_ok hc hkind hroom hfits
  exact ⟨b', by rw [appendColumn_eq, hrequire]; exact hb'⟩

/-- Where offsets would not reach the end of the text, a column is refused. -/
theorem Holds.writeColumn_of_not_fits (h : b.Holds k n rows present) {c : Column} {source : List Row}
    (hc : c.Holds source) (hkind : c.kind = k)
    (hfits : ¬ Elements.Fits k ((rows ++ source).map Row.cell)) :
    (writeColumn c.shape c.payload).outcome b = refuse .textTooLong := by
  have helements : c.payload.elements = .lay k (source.map Row.cell) := hkind ▸ hc.elements
  have he := Elements.extend_lay_of_not_fits h.elements (b := source.map Row.cell) (hkind ▸ hc.fits)
    (by rwa [← List.map_append]) b.kind.stride
  rw [List.length_map, hc.length, ← helements] at he
  rw [writeColumn, Edit.outcome_bind, outcome_takeElements, show c.shape.rows = c.rows from rfl, he]
  rfl

/-- **Additions** to a builder of rows reach nowhere out of bounds. -/
theorem Holds.inBounds_append (h : b.Holds k n rows present) (r : Rows) : (b.append r).InBounds := by
  rw [append_eq]
  refine (b.inBounds_requireRows r).bind fun _ hrequire => ?_
  obtain ⟨-, hsuits, hroom, -⟩ := of_requireRows hrequire
  rw [h.kind] at hsuits
  rw [h.rows, h.capacity, List.length_map] at hroom
  obtain ⟨b', hb'⟩ := h.write_ok hsuits hroom
  rw [hb']
  exact Outcome.inBounds_ok b'

theorem Holds.inBounds_appendColumn (h : b.Holds k n rows present) {c : Column} (hc : c.WellFormed) :
    (b.appendColumn c.shape c.payload).InBounds := by
  rw [appendColumn_eq]
  refine (b.inBounds_requireColumn c.shape).bind fun _ hrequire => ?_
  simp only [requireColumn, Outcome.bind_eq_ok, requireKind_eq_ok, requireRoom_eq_ok] at hrequire
  obtain ⟨-, -, -, hkind, hroom⟩ := hrequire
  obtain ⟨source, hsource⟩ := hc.holds
  rw [h.rows, h.capacity, List.length_map, show c.shape.rows = c.rows from rfl, ← hsource.length] at hroom
  have hkind : c.kind = k := hkind.symm.trans h.kind
  by_cases hfits : Elements.Fits k ((rows ++ source).map Row.cell)
  · obtain ⟨b', hb'⟩ := h.writeColumn_ok hsource hkind hroom hfits
    rw [hb']
    exact Outcome.inBounds_ok b'
  · rw [h.writeColumn_of_not_fits hsource hkind hfits]
    exact Outcome.inBounds_refuse _

/-! ## Columns of builders -/

theorem Marked.nullFlags_column (h : b.Marked k n marks present) : b.column.nullFlags = marks := by
  have := h.flags
  rw [← h.rows] at this
  exact this

theorem Marked.counted (h : b.Marked k n marks present) : b.column.Counted where
  suits := by
    have hsuits := h.suits
    rw [← h.kind] at hsuits
    exact Elements.suits_finish hsuits
  covered v hv := by
    have := (h.fresh v hv).1
    have hroom := h.room
    rw [← h.rows] at hroom
    exact Nat.le_trans hroom this
  nulls := by
    rw [h.nullFlags_column]
    exact h.nulls

theorem Holds.column (h : b.Holds k n rows present) : b.column.Holds rows where
  flags := h.toMarked.nullFlags_column
  elements := by
    have := h.elements
    rw [← h.kind] at this
    exact this
  isRow r hr := by
    have := h.isRow r hr
    rw [← h.kind] at this
    exact this
  fits := by
    have := h.fits
    rw [← h.kind] at this
    exact this
  covered := h.toMarked.counted.covered

end Columnar.Builder
