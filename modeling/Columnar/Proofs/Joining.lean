/-
Concatenation: the rows of the whole are the rows of the parts in order.

A concatenation under way is `Marked` by the null rows taken over so far and
`Holds` their elements; each part takes it one step on (`Marked.of_take`,
`Holds.of_take`), and the step can be taken where text still fits
(`Holds.take`). `Column.concat_counted` and `Column.concat_holds` are what comes
out in the end, and `Column.concat_ok` says that something does where storage for
the whole can be set aside.
-/
import Columnar.Column.Concat
import Columnar.Proofs.Rows

namespace Columnar

/-- The rows that columns hold, one column after the other. -/
inductive Column.AllHold : List Column → List Row → Prop where
  | nil : AllHold [] []
  | cons {c : Column} {cs : List Column} {rows rest : List Row} (h : c.Holds rows)
      (hrest : AllHold cs rest) : AllHold (c :: cs) (rows ++ rest)

namespace Concatenation

/-- A concatenation of a kind to `t` rows in all that has taken over rows with these null
marks; `present` tells whether it has validity bits. -/
structure Marked (c : Concatenation) (k : Kind) (t : Nat) (marks : List Bool) (present : Bool) : Prop where
  kind : c.kind = k
  rows : c.rows = marks.length
  suits : c.elements.Suits k
  flags : Bitmap.nullFlags c.validity marks.length = marks
  bits : c.validity.isSome = present
  fresh : ∀ v, c.validity = some v →
    v.capacity = (Bitmap.allValid t).capacity ∧ v.FreshFrom marks.length

/-- A concatenation that has taken over these rows. -/
structure Holds (c : Concatenation) (k : Kind) (t : Nat) (held : List Row) (present : Bool) : Prop
    extends Marked c k t (held.map Row.null) present where
  elements : c.elements.finish = .lay k (held.map Row.cell)
  isRow : ∀ r ∈ held, k.IsRow r
  fits : Elements.Fits k (held.map Row.cell)

theorem marked_empty (whole : Shape) :
    (empty whole).Marked whole.kind whole.rows [] whole.hasValidity where
  kind := rfl
  rows := rfl
  suits := Elements.suits_empty _
  flags := rfl
  bits := by cases h : whole.hasValidity <;> simp [empty, h]
  fresh v hv := by
    cases h : whole.hasValidity with
    | false => simp [empty, h] at hv
    | true =>
      obtain rfl : Bitmap.allValid whole.rows = v := by simpa [empty, h] using hv
      exact ⟨rfl, Bitmap.freshFrom_allValid _ _⟩

theorem holds_empty (whole : Shape) :
    (empty whole).Holds whole.kind whole.rows [] whole.hasValidity where
  toMarked := marked_empty whole
  elements := Elements.finish_empty _
  isRow := by simp
  fits _ := Nat.zero_le _

theorem start_eq_ok {whole : Shape} {c : Concatenation} :
    start whole = .ok c ↔ Elements.reserved whole.kind whole.rows ≤ maxSize ∧ c = empty whole := by
  rw [start, Outcome.seq_eq_ok, Elements.requireStorage_eq_ok, Outcome.pure_eq_ok, eq_comm (b := c)]

/-- What taking over a part does. -/
theorem take_eq_ok {c c' : Concatenation} {n : Nat} {p : Payload} (h : c.take n p = .ok c') :
    ∃ e v, c.elements.extend p.elements n c.kind.stride = .ok e ∧
      (∀ mine theirs, c.validity = some mine → p.validity = some theirs →
        ∃ merged, mine.merge? c.rows theirs n = some merged ∧ v = some merged) ∧
      (c.validity = none ∨ p.validity = none → v = c.validity) ∧
      c' = { c with rows := c.rows + n, elements := e, validity := v } := by
  unfold take at h
  rw [Outcome.bind_eq_ok] at h
  obtain ⟨e, he, h⟩ := h
  refine ⟨e, ?_⟩
  cases hmine : c.validity with
  | none =>
    simp only [hmine, Outcome.bind_eq_ok, Outcome.pure_eq_ok] at h
    obtain ⟨v, rfl, rfl⟩ := h
    exact ⟨none, he, by simp, fun _ => rfl, rfl⟩
  | some mine =>
    cases htheirs : p.validity with
    | none =>
      simp only [hmine, htheirs, Outcome.bind_eq_ok, Outcome.pure_eq_ok] at h
      obtain ⟨v, rfl, rfl⟩ := h
      exact ⟨some mine, he, by simp, fun _ => rfl, rfl⟩
    | some theirs =>
      simp only [hmine, htheirs, Outcome.bind_eq_ok, Outcome.map_eq_ok, Outcome.ofOption_eq_ok,
        Outcome.pure_eq_ok] at h
      obtain ⟨v, ⟨merged, hmerged, rfl⟩, rfl⟩ := h
      refine ⟨some merged, he, ?_, by simp, rfl⟩
      rintro _ _ ⟨⟩ ⟨⟩
      exact ⟨merged, hmerged, rfl⟩

variable {c c' : Concatenation} {k : Kind} {t : Nat} {marks : List Bool} {held rows : List Row}
  {present : Bool} {part : Column}

/-- **A part's rows are marked** as they are in the part. -/
theorem Marked.of_take (h : c.Marked k t marks present) (hbits : part.payload.validity.isSome → present)
    (hroom : marks.length + part.rows ≤ t) (hc : c.take part.rows part.payload = .ok c') :
    c'.Marked k t (marks ++ part.nullFlags) present := by
  obtain ⟨elements, v, helements, hsome, hnone, rfl⟩ := take_eq_ok hc
  have hlen : (marks ++ part.nullFlags).length = marks.length + part.rows := by
    rw [List.length_append, part.length_nullFlags]
  suffices Bitmap.nullFlags v (marks.length + part.rows) = marks ++ part.nullFlags ∧
      v.isSome = present ∧ ∀ w, v = some w →
        w.capacity = (Bitmap.allValid t).capacity ∧ w.FreshFrom (marks.length + part.rows) by
    obtain ⟨hflags, hpresent, hfresh⟩ := this
    exact ⟨h.kind, by rw [hlen, ← h.rows], Elements.suits_extend h.suits helements, by rw [hlen, hflags],
      hpresent, by rwa [hlen]⟩
  have hpresent := h.bits
  cases htheirs : part.payload.validity with
  | none =>
    obtain rfl := hnone (.inr htheirs)
    refine ⟨?_, hpresent, fun w hw => ?_⟩
    · -- The bits behind stay as they are, which is set.
      rw [Column.nullFlags, htheirs, Bitmap.nullFlags_none, Bitmap.nullFlags_add_valid, h.flags]
      intro mine hmine
      obtain ⟨hsize, hfresh⟩ := h.fresh mine hmine
      exact ⟨hfresh, hsize ▸ Nat.le_trans hroom (Bitmap.le_capacity_allValid t)⟩
    · obtain ⟨hsize, hfresh⟩ := h.fresh w hw
      exact ⟨hsize, hfresh.mono (Nat.le_add_right _ _)⟩
  | some theirs =>
    obtain rfl : present = true := hbits (by rw [htheirs]; rfl)
    obtain ⟨mine, hmine⟩ := Option.isSome_iff_exists.mp hpresent
    obtain ⟨merged, hmerged, rfl⟩ := hsome mine theirs hmine htheirs
    obtain ⟨hsize, hfresh⟩ := h.fresh mine hmine
    have hflags := h.flags
    rw [hmine] at hflags
    rw [h.rows] at hmerged
    obtain ⟨hjoined, hsame, hkept⟩ := Bitmap.merge?_eq_some hmerged
    refine ⟨by rw [hjoined, hflags, Column.nullFlags, htheirs], rfl, ?_⟩
    rintro _ ⟨⟩
    exact ⟨hsame.trans hsize, hkept hfresh⟩

theorem Holds.of_take (h : c.Holds k t held present) (hpart : part.Holds rows) (hkind : part.kind = k)
    (hbits : part.payload.validity.isSome → present) (hroom : held.length + part.rows ≤ t)
    (hc : c.take part.rows part.payload = .ok c') : c'.Holds k t (held ++ rows) present := by
  have hmarked := h.toMarked.of_take hbits (by simpa using hroom) hc
  rw [hpart.flags, ← List.map_append] at hmarked
  obtain ⟨e, v, he, -, -, rfl⟩ := take_eq_ok hc
  subst hkind
  have hlen : part.rows = (rows.map Row.cell).length := by rw [List.length_map, hpart.length]
  rw [hpart.elements, hlen, h.kind] at he
  obtain ⟨hfits, helements⟩ := Elements.of_extend_lay h.elements hpart.isCell hpart.fits he
  rw [← List.map_append] at hfits helements
  exact {
    toMarked := hmarked
    elements := helements
    isRow := fun r hr => (List.mem_append.mp hr).elim (h.isRow r) (hpart.isRow r)
    fits := hfits }

/-- **A part can be taken over** where its text fits. -/
theorem Holds.take (h : c.Holds k t held present) (hpart : part.Holds rows) (hkind : part.kind = k)
    (hroom : held.length + part.rows ≤ t)
    (hfits : Elements.Fits k ((held ++ rows).map Row.cell)) :
    ∃ c', c.take part.rows part.payload = .ok c' := by
  subst hkind
  rw [List.map_append] at hfits
  obtain ⟨e, he, -⟩ := Elements.extend_lay h.elements hpart.isCell hfits
  have hlen : (rows.map Row.cell).length = part.rows := by rw [List.length_map, hpart.length]
  rw [hlen, ← hpart.elements, ← h.kind] at he
  unfold Concatenation.take
  rw [he]
  cases hmine : c.validity with
  | none => exact ⟨_, rfl⟩
  | some mine =>
    cases htheirs : part.payload.validity with
    | none => exact ⟨_, rfl⟩
    | some theirs =>
      have hcap := (h.fresh mine hmine).1
      have hbits := Bitmap.le_capacity_allValid t
      have hrows : c.rows = held.length := by rw [h.rows, List.length_map]
      obtain ⟨merged, hmerged, -⟩ := Bitmap.merge?_ok mine c.rows
        (hpart.covered theirs htheirs) (by omega)
      simp only [hmerged]
      exact ⟨_, rfl⟩

/-! ## All parts -/

/-- Takes over parts in order. -/
def takeAll (c : Concatenation) (parts : List Column) : Outcome Concatenation :=
  parts.foldlM (fun c part => c.take part.rows part.payload) c

variable {parts : List Column}

theorem takeAll_nil_eq_ok : c.takeAll [] = .ok c' ↔ c = c' := by simp [takeAll]

theorem takeAll_cons_eq_ok :
    c.takeAll (part :: parts) = .ok c' ↔
      ∃ d, c.take part.rows part.payload = .ok d ∧ d.takeAll parts = .ok c' := by
  rw [takeAll, List.foldlM_cons, Outcome.bind_eq_ok]
  rfl

/-- Taking over parts makes no validity bits and leaves none out. -/
theorem capacity_takeAll (hc : c.takeAll parts = .ok c') :
    c'.validity.map Bitmap.capacity = c.validity.map Bitmap.capacity := by
  induction parts generalizing c with
  | nil =>
    obtain rfl := takeAll_nil_eq_ok.mp hc
    rfl
  | cons part parts ih =>
    obtain ⟨d, hd, hc⟩ := takeAll_cons_eq_ok.mp hc
    rw [ih hc]
    obtain ⟨e, v, -, hsome, hnone, rfl⟩ := take_eq_ok hd
    cases hmine : c.validity with
    | none => rw [hnone (.inl hmine), hmine]
    | some mine =>
      cases htheirs : part.payload.validity with
      | none => rw [hnone (.inr htheirs), hmine]
      | some theirs =>
        obtain ⟨merged, hmerged, rfl⟩ := hsome mine theirs hmine htheirs
        simp [(Bitmap.merge?_eq_some hmerged).2.1]

theorem Marked.of_takeAll (h : c.Marked k t marks present)
    (hbits : ∀ part ∈ parts, part.payload.validity.isSome → present)
    (hroom : marks.length + total (parts.map Column.rows) ≤ t) (hc : c.takeAll parts = .ok c') :
    c'.Marked k t (marks ++ parts.flatMap Column.nullFlags) present := by
  induction parts generalizing c marks with
  | nil =>
    obtain rfl := takeAll_nil_eq_ok.mp hc
    simpa using h
  | cons part parts ih =>
    obtain ⟨d, hd, hc⟩ := takeAll_cons_eq_ok.mp hc
    simp only [List.map_cons, total] at hroom
    have hstep := h.of_take (hbits part (by simp)) (by omega) hd
    have := ih hstep (fun q hq => hbits q (by simp [hq]))
      (by rw [List.length_append, part.length_nullFlags]; omega) hc
    simpa using this

theorem Holds.of_takeAll (h : c.Holds k t held present) (hparts : Column.AllHold parts rows)
    (hkind : ∀ part ∈ parts, part.kind = k)
    (hbits : ∀ part ∈ parts, part.payload.validity.isSome → present)
    (hroom : held.length + total (parts.map Column.rows) ≤ t)
    (hc : c.takeAll parts = .ok c') : c'.Holds k t (held ++ rows) present := by
  induction hparts generalizing c held with
  | nil =>
    obtain rfl := takeAll_nil_eq_ok.mp hc
    simpa using h
  | @cons part parts rows rest hpart _ ih =>
    obtain ⟨d, hd, hc⟩ := takeAll_cons_eq_ok.mp hc
    simp only [List.map_cons, total] at hroom
    have hstep := h.of_take hpart (hkind part (by simp)) (hbits part (by simp)) (by omega) hd
    have := ih hstep (fun p hp => hkind p (by simp [hp])) (fun p hp => hbits p (by simp [hp]))
      (by rw [List.length_append, hpart.length]; omega) hc
    rwa [List.append_assoc] at this

theorem Holds.takeAll (h : c.Holds k t held present) (hparts : Column.AllHold parts rows)
    (hkind : ∀ part ∈ parts, part.kind = k)
    (hbits : ∀ part ∈ parts, part.payload.validity.isSome → present)
    (hroom : held.length + total (parts.map Column.rows) ≤ t)
    (hfits : Elements.Fits k ((held ++ rows).map Row.cell)) : ∃ c', c.takeAll parts = .ok c' := by
  induction hparts generalizing c held with
  | nil => exact ⟨c, rfl⟩
  | @cons part parts rows rest hpart _ ih =>
    simp only [List.map_cons, total] at hroom
    rw [← List.append_assoc] at hfits
    have hfirst : Elements.Fits k ((held ++ rows).map Row.cell) := by
      intro hk
      refine Nat.le_trans ?_ (hfits hk)
      simp only [List.map_append, List.flatten_append, List.length_append]
      omega
    obtain ⟨d, hd⟩ := h.take hpart (hkind part (by simp)) (by omega) hfirst
    have hstep := h.of_take hpart (hkind part (by simp)) (hbits part (by simp)) (by omega) hd
    obtain ⟨c', hc'⟩ := ih hstep (fun p hp => hkind p (by simp [hp]))
      (fun p hp => hbits p (by simp [hp])) (by rw [List.length_append, hpart.length]; omega) hfits
    exact ⟨c', takeAll_cons_eq_ok.mpr ⟨d, hd, hc'⟩⟩

/-- The kind that all parts have. -/
theorem requireKind_eq_ok {shapes : List Shape} {k : Kind} :
    requireKind shapes = .ok k ↔ shapes ≠ [] ∧ ∀ s ∈ shapes, s.kind = k := by
  cases shapes with
  | nil => simp [requireKind]
  | cons first rest =>
    simp only [requireKind]
    split
    next other hother =>
      have hdiffers := List.find?_some hother
      have hmem := List.mem_of_find?_eq_some hother
      simp only [decide_eq_true_eq] at hdiffers
      simp only [Outcome.refuse_ne_ok, false_iff, not_and]
      intro _ hall
      exact hdiffers ((hall other (by simp [hmem])).trans (hall first (by simp)).symm)
    next hnone =>
      simp only [List.find?_eq_none, decide_eq_true_eq, Decidable.not_not] at hnone
      simp only [Except.ok.injEq, ne_eq, List.cons_ne_nil, not_false_eq_true, true_and,
        List.forall_mem_cons]
      constructor
      · rintro rfl
        exact ⟨rfl, hnone⟩
      · exact fun h => h.1

/-- Different kinds are refused. -/
theorem requireKind_eq_refuse {shapes : List Shape}
    (h : ∃ s ∈ shapes, ∃ t ∈ shapes, s.kind ≠ t.kind) :
    ∃ k l, requireKind shapes = refuse (.wrongKind k l) := by
  cases shapes with
  | nil =>
    obtain ⟨s, hs, -⟩ := h
    cases hs
  | cons first rest =>
    simp only [requireKind]
    split
    next other _ => exact ⟨first.kind, other.kind, rfl⟩
    next hnone =>
      have hall : ∀ s ∈ first :: rest, s.kind = first.kind := by
        simpa [List.find?_eq_none] using hnone
      obtain ⟨s, hs, t, ht, hne⟩ := h
      exact absurd ((hall s hs).trans (hall t ht).symm) hne

/-! ## The whole -/

theorem Marked.suits_column {whole : Shape} (h : c.Marked whole.kind whole.rows marks present) :
    (whole.column c.payload).payload.elements.Suits whole.kind := Elements.suits_finish h.suits

/-- The column that a concatenation has become once all rows are there. -/
theorem Marked.column {whole : Shape} (h : c.Marked whole.kind whole.rows marks present)
    (hlen : marks.length = whole.rows) :
    (whole.column c.payload).nullFlags = marks ∧ (whole.column c.payload).Covered := by
  refine ⟨?_, fun v hv => (h.fresh v hv).1 ▸ Bitmap.le_capacity_allValid _⟩
  have := h.flags
  rwa [hlen] at this

theorem Holds.column {whole : Shape} (h : c.Holds whole.kind whole.rows held present)
    (hlen : held.length = whole.rows) : (whole.column c.payload).Holds held := by
  obtain ⟨hflags, hcovered⟩ := h.toMarked.column (by simpa using hlen)
  exact ⟨hflags, h.elements, h.isRow, h.fits, hcovered⟩

end Concatenation

namespace Column

variable {parts : List Column} {c : Column} {held : List Row}

/-- The whole of which columns are the parts, before any is taken over. -/
def wholeOf (k : Kind) (parts : List Column) : Shape := Concatenation.shape k (parts.map shape)

theorem wholeOf_hasValidity (k : Kind) (parts : List Column) :
    (wholeOf k parts).hasValidity = parts.any fun part => part.payload.validity.isSome := by
  simp [wholeOf, Concatenation.shape, List.any_map, Function.comp_def, shape]

theorem wholeOf_rows (k : Kind) (parts : List Column) :
    (wholeOf k parts).rows = total (parts.map Column.rows) := by
  simp [wholeOf, Concatenation.shape, Function.comp_def, shape]

theorem concat_eq_ok_iff :
    concat parts = .ok c ↔
      ∃ k taken, parts ≠ [] ∧ (∀ part ∈ parts, part.kind = k) ∧
        Elements.reserved k (total (parts.map Column.rows)) ≤ maxSize ∧
        (Concatenation.empty (wholeOf k parts)).takeAll parts = .ok taken ∧
        c = (wholeOf k parts).column taken.payload := by
  simp only [concat, Outcome.bind_eq_ok, Outcome.pure_eq_ok, Concatenation.requireKind_eq_ok,
    Concatenation.start_eq_ok, ne_eq, List.map_eq_nil_iff, List.forall_mem_map]
  constructor
  · rintro ⟨k, ⟨hne, hkind⟩, _, ⟨hroom, rfl⟩, taken, htaken, rfl⟩
    exact ⟨k, taken, hne, hkind, wholeOf_rows k parts ▸ hroom, htaken, rfl⟩
  · rintro ⟨k, taken, hne, hkind, hroom, htaken, rfl⟩
    exact ⟨k, ⟨hne, hkind⟩, _, ⟨(wholeOf_rows k parts).symm ▸ hroom, rfl⟩, taken, htaken, rfl⟩

theorem concat_eq_ok (h : concat parts = .ok c) :
    ∃ k taken, parts ≠ [] ∧ (∀ part ∈ parts, part.kind = k) ∧
      (Concatenation.empty (wholeOf k parts)).takeAll parts = .ok taken ∧
      c = (wholeOf k parts).column taken.payload := by
  obtain ⟨k, taken, hne, hkind, -, htaken, rfl⟩ := concat_eq_ok_iff.mp h
  exact ⟨k, taken, hne, hkind, htaken, rfl⟩

/-- The nulls of columns are those of all their rows. -/
theorem total_nulls (h : ∀ part ∈ parts, part.Counted) :
    total (parts.map nulls) = (parts.flatMap nullFlags).count true := by
  induction parts with
  | nil => rfl
  | cons part parts ih =>
    simp only [List.map_cons, total, List.flatMap_cons, List.count_append, (h part (by simp)).nulls,
      ih fun q hq => h q (by simp [hq])]

theorem length_flatMap_nullFlags (parts : List Column) :
    (parts.flatMap nullFlags).length = total (parts.map rows) := by
  induction parts with
  | nil => rfl
  | cons part parts ih =>
    simp only [List.flatMap_cons, List.length_append, length_nullFlags, ih, List.map_cons, total]

theorem isSome_of_mem (k : Kind) {part : Column} (h : part ∈ parts)
    (hbits : part.payload.validity.isSome) : (wholeOf k parts).hasValidity := by
  rw [wholeOf_hasValidity, List.any_eq_true]
  exact ⟨part, h, hbits⟩

theorem AllHold.length (h : AllHold parts held) : held.length = total (parts.map rows) := by
  induction h with
  | nil => rfl
  | cons hpart _ ih => simp only [List.length_append, List.map_cons, total, hpart.length, ih]

/-- A concatenation has validity bits if some part has, for as many rows as it has. -/
theorem capacity_concat (hc : concat parts = .ok c) :
    c.payload.validity.map Bitmap.capacity =
      if parts.any (fun part => part.payload.validity.isSome) then
        some (Bitmap.allValid c.rows).capacity
      else none := by
  obtain ⟨k, taken, -, -, htaken, rfl⟩ := concat_eq_ok hc
  rw [← wholeOf_hasValidity k]
  refine (Concatenation.capacity_takeAll htaken).trans ?_
  simp only [Concatenation.empty]
  split <;> rfl

theorem kind_concat {k : Kind} (hne : parts ≠ []) (hkind : ∀ part ∈ parts, part.kind = k)
    (hc : concat parts = .ok c) : c.kind = k := by
  obtain ⟨k', taken, -, hkind', -, rfl⟩ := concat_eq_ok hc
  obtain ⟨part, hpart⟩ := List.exists_mem_of_ne_nil parts hne
  exact (hkind' part hpart).symm.trans (hkind part hpart)

theorem rows_concat (hc : concat parts = .ok c) : c.rows = total (parts.map rows) := by
  obtain ⟨k, taken, -, -, -, rfl⟩ := concat_eq_ok hc
  exact wholeOf_rows k parts

/-- One allocation has room for a byte a row. -/
theorem rows_concat_le (hc : concat parts = .ok c) : c.rows ≤ maxSize := by
  obtain ⟨k, -, -, -, hroom, -⟩ := concat_eq_ok_iff.mp hc
  rw [rows_concat hc]
  exact Nat.le_trans (Elements.le_reserved k _) hroom

theorem nulls_concat (hc : concat parts = .ok c) : c.nulls = total (parts.map nulls) := by
  obtain ⟨k, taken, -, -, -, rfl⟩ := concat_eq_ok hc
  simp [Shape.column, wholeOf, Concatenation.shape, Function.comp_def, shape]

/-- **A concatenation's null rows** are those of its parts, it counts them right,
and its bits past the last row have never been written. -/
theorem concat_counted (h : ∀ part ∈ parts, part.Counted) (hc : concat parts = .ok c) :
    c.nullFlags = parts.flatMap nullFlags ∧ c.Counted ∧ c.Padded := by
  have hnulls := nulls_concat hc
  obtain ⟨k, taken, -, -, htaken, rfl⟩ := concat_eq_ok hc
  have hmarked := (Concatenation.marked_empty (wholeOf k parts)).of_takeAll
    (fun part hpart => isSome_of_mem k hpart) (by simp [wholeOf_rows]) htaken
  rw [List.nil_append] at hmarked
  have hlen : (parts.flatMap nullFlags).length = (wholeOf k parts).rows := by
    rw [length_flatMap_nullFlags, wholeOf_rows]
  obtain ⟨hflags, hcovered⟩ := hmarked.column hlen
  refine ⟨hflags, ⟨hmarked.suits_column, hcovered, by rw [hnulls, hflags, total_nulls h]⟩, ?_⟩
  intro v hv
  have hfresh := (hmarked.fresh v hv).2
  rwa [hlen] at hfresh

theorem allHold_of_wellFormed (h : ∀ part ∈ parts, part.WellFormed) : ∃ held, AllHold parts held := by
  induction parts with
  | nil => exact ⟨[], .nil⟩
  | cons part parts ih =>
    obtain ⟨rows, hrows⟩ := (h part (by simp)).holds
    obtain ⟨held, hheld⟩ := ih fun q hq => h q (by simp [hq])
    exact ⟨rows ++ held, .cons hrows hheld⟩

/-- The text of the rows is that of the columns. -/
theorem AllHold.length_text (h : AllHold parts held) (hkind : ∀ part ∈ parts, part.kind = .string) :
    (held.map Row.cell).flatten.length =
      total (parts.map fun part => part.payload.elements.data.length) := by
  induction h with
  | nil => rfl
  | @cons part parts rows rest hpart _ ih =>
    have hdata : part.payload.elements.data = (rows.map Row.cell).flatten := by
      rw [hpart.elements, hkind part (by simp), Elements.lay_string]
      rfl
    simp only [List.map_append, List.flatten_append, List.length_append, List.map_cons, total, hdata,
      ih fun q hq => hkind q (by simp [hq])]

/-- The answers of the columns are those of the rows. -/
theorem AllHold.scalars {k : Kind} (h : AllHold parts held) (hkind : ∀ part ∈ parts, part.kind = k) :
    parts.flatMap Column.scalars = held.map fun r => .ok (r.scalar k) := by
  induction h with
  | nil => rfl
  | @cons part parts rows rest hpart _ ih =>
    obtain rfl := hkind part (by simp)
    rw [List.flatMap_cons, hpart.scalars, ih fun q hq => hkind q (by simp [hq]), List.map_append]

theorem rows_le_total {part : Column} (h : part ∈ parts) : part.rows ≤ total (parts.map rows) := by
  induction parts with
  | nil => cases h
  | cons first parts ih =>
    simp only [List.map_cons, total]
    rcases List.mem_cons.mp h with rfl | h
    · exact Nat.le_add_right _ _
    · exact Nat.le_trans (ih h) (Nat.le_add_left _ _)

/-- **A concatenation holds the rows of its parts**, one part after the other. -/
theorem concat_holds (h : AllHold parts held) (hc : concat parts = .ok c) : c.Holds held := by
  obtain ⟨k, taken, -, hkind, htaken, rfl⟩ := concat_eq_ok hc
  have hwhole := wholeOf_rows k parts
  have hholds := (Concatenation.holds_empty (wholeOf k parts)).of_takeAll h hkind
    (fun part hp => isSome_of_mem k hp) (by simp [hwhole]) htaken
  rw [List.nil_append] at hholds
  exact hholds.column (by rw [h.length, hwhole])

/-- **There is a concatenation** of columns of one kind whose text fits together, where storage for
all rows can be set aside. -/
theorem concat_ok {k : Kind} (hne : parts ≠ []) (hkind : ∀ part ∈ parts, part.kind = k)
    (h : AllHold parts held) (hroom : Elements.reserved k (total (parts.map rows)) ≤ maxSize)
    (hfits : Elements.Fits k (held.map Row.cell)) : ∃ c, concat parts = .ok c := by
  obtain ⟨taken, htaken⟩ := (Concatenation.holds_empty (wholeOf k parts)).takeAll h hkind
    (fun part hp => isSome_of_mem k hp) (by simp [wholeOf_rows]) hfits
  exact ⟨_, concat_eq_ok_iff.mpr ⟨k, taken, hne, hkind, hroom, htaken, rfl⟩⟩

end Column

end Columnar
