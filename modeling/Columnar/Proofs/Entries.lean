/-
The rows that are added to a builder, one by one.

Every way to add rows is a list of entries. `Builder.append_eq_ok` says when an
addition is taken and that it is then the entries written in order, except that
repeated elements are written in one go. An addition that is refused leaves the
builder as it was (`careful_addRows`, `careful_addColumn`): whatever can be
refused is checked before the first byte of a row is written.
-/
import Columnar.Builder
import Columnar.Proofs.Rows

namespace Columnar

/-- The scalar of an element of a form in a column of a kind. -/
def Kind.scalarOf (k : Kind) (f : Primitive) (v : f.Carrier) : Scalar :=
  match k, f, v with
  | .date, .int .w32, days => .date days
  | _, f, v => f.toScalar v

/-- One row as it is asked for. -/
inductive Entry where
  | element (f : Primitive) (v : f.Carrier)
  | null
  | text (s : String)

namespace Entry

def isNull : Entry → Bool
  | null => true
  | _ => false

/-- The scalar that the entry is in a column of a kind. -/
def scalar (k : Kind) : Entry → Scalar
  | element f v => k.scalarOf f v
  | null => .null
  | text s => .string s

/-- The bytes that are written for the entry. -/
def cell (k : Kind) : Entry → Bytes
  | element f v => f.encode v
  | null => List.replicate k.stride 0
  | text s => Utf8.encode s

def row (k : Kind) (e : Entry) : Row := ⟨e.isNull, e.cell k⟩

/-- That the entry can be a row of a kind. -/
def Suits (k : Kind) : Entry → Prop
  | element f _ => k.primitive? = some f
  | null => True
  | text _ => k = .string

/-- The bytes of text that the entry brings. -/
def size : Entry → Nat
  | text s => Builder.textSize s
  | _ => 0

/-- The entry that stands for a value that may be missing. -/
def ofOption {α : Type} (entry : α → Entry) (a : Option α) : Entry := a.elim null entry

theorem forall_mem_map_ofOption {α : Type} {P : Entry → Prop} {entry : α → Entry} (hnull : P null)
    (h : ∀ a, P (entry a)) (as : List (Option α)) : ∀ e ∈ as.map (ofOption entry), P e := by
  intro e he
  obtain ⟨a, -, rfl⟩ := List.mem_map.mp he
  cases a with
  | none => exact hnull
  | some a => exact h a

/-! ### Entries as rows -/

theorem readCell_encode {k : Kind} {f : Primitive} (hk : k.primitive? = some f) (v : f.Carrier) :
    k.readCell (f.encode v) = k.scalarOf f v := by
  cases k with
  | string => cases hk
  | _ =>
    cases hk
    simp only [Kind.readCell, Primitive.decode_encode]
    rfl

theorem scalar_row {k : Kind} {e : Entry} (h : e.Suits k) : (e.row k).scalar k = e.scalar k := by
  cases e with
  | element f v => simpa [row, Row.scalar, isNull, cell, scalar] using readCell_encode h v
  | null => rfl
  | text s =>
    obtain rfl : k = .string := h
    simp [row, Row.scalar, isNull, cell, scalar, Kind.readCell, Utf8.decode_encode, Except.toOption]

theorem isRow_row {k : Kind} {e : Entry} (h : e.Suits k) : k.IsRow (e.row k) := by
  cases e with
  | element f v => exact ⟨Kind.isCell_encode h v, fun _ hnull => by cases hnull⟩
  | null =>
    refine ⟨?_, by rintro rfl _; rfl⟩
    cases hk : k.primitive? with
    | some f => simp [Kind.isCell_iff hk, row, cell, Kind.stride_eq hk]
    | none =>
      obtain rfl := Kind.primitive?_eq_none.mp hk
      exact ⟨"", rfl⟩
  | text s =>
    obtain rfl : k = .string := h
    exact ⟨Kind.isCell_text s, fun _ hnull => by cases hnull⟩

theorem length_cell_string {e : Entry} (h : e.Suits .string) : (e.cell .string).length = e.size := by
  cases e with
  | element f v => cases h
  | null => rfl
  | text s => rfl

/-- The text that entries bring is as long as they say. -/
theorem length_flatten_cells {es : List Entry} (h : ∀ e ∈ es, e.Suits .string) :
    (es.map (cell .string)).flatten.length = total (es.map size) := by
  induction es with
  | nil => rfl
  | cons e es ih =>
    simp only [List.map_cons, List.flatten_cons, List.length_append, total,
      length_cell_string (h e (by simp)), ih fun e he => h e (by simp [he])]

end Entry

namespace Rows

/-- The entries that rows are. -/
def entries : Rows → List Entry
  | value f v => [.element f v]
  | null => [.null]
  | nulls count => List.replicate count .null
  | repeated f v count => List.replicate count (.element f v)
  | values f vs => vs.map (.element f)
  | options f vs => vs.map (Entry.ofOption (.element f))
  | text s => [.text s]
  | texts ss => ss.map .text
  | optionTexts ss => ss.map (Entry.ofOption .text)

end Rows

namespace Builder

/-- Writes one entry. -/
def push (b : Builder) : Entry → Outcome Builder
  | .element f v => .ok (b.pushElement f v)
  | .null => b.pushNull
  | .text s => .ok (b.pushText s)

/-- Writes rows that have been checked. -/
def write (b : Builder) (r : Rows) : Outcome Builder :=
  match r with
  | .repeated f v count => b.pushRepeated f v count
  | r => r.entries.foldlM push b

/-- That `n` more bytes of text leave offsets that reach the end, if they did before. -/
def TextRoom (b : Builder) (n : Nat) : Prop :=
  ∀ offsets text, b.elements = .strings offsets text →
    text.length ≤ maxTextBytes → text.length + n ≤ maxTextBytes

/-! ### Checks -/

@[simp] theorem requireOpen_eq_ok {b : Builder} {u : Unit} :
    b.requireOpen = .ok u ↔ b.phase = .opened := by
  cases h : b.phase <;> simp [requireOpen, h]

theorem requireOpen_of_ne {b : Builder} (h : b.phase ≠ .opened) : ∃ e, b.requireOpen = refuse e := by
  unfold requireOpen
  split
  next hopen => exact absurd hopen h
  next => exact ⟨_, rfl⟩
  next => exact ⟨_, rfl⟩

@[simp] theorem requireRoom_eq_ok {b : Builder} {n : Nat} {u : Unit} :
    b.requireRoom n = .ok u ↔ b.rows + n ≤ b.capacity := Outcome.check_eq_ok

@[simp] theorem requireForm_eq_ok {b : Builder} {f : Primitive} {u : Unit} :
    b.requireForm f = .ok u ↔ b.kind.primitive? = some f :=
  Outcome.check_eq_ok.trans Kind.storage_eq_kind

@[simp] theorem requireKind_eq_ok {b : Builder} {k : Kind} {u : Unit} :
    b.requireKind k = .ok u ↔ b.kind = k := Outcome.check_eq_ok

theorem textRoom_of_eq_ok {b : Builder} {n : Nat} {u : Unit} (h : b.requireTextRoom n = .ok u) :
    b.TextRoom n := by
  intro offsets text he _
  simpa [requireTextRoom, he, Elements.textFits] using h

theorem textRoom_zero (b : Builder) : b.TextRoom 0 := fun _ _ _ h => h

theorem requireElements_eq_ok {b : Builder} {f : Primitive} {n : Nat} {u : Unit} :
    b.requireElements f n = .ok u ↔
      b.phase = .opened ∧ b.kind.primitive? = some f ∧ b.rows + n ≤ b.capacity := by
  simp [requireElements, Outcome.bind_eq_ok]

theorem of_requireTexts {b : Builder} {n bytes : Nat} {u : Unit} (h : b.requireTexts n bytes = .ok u) :
    b.phase = .opened ∧ b.kind = .string ∧ b.rows + n ≤ b.capacity ∧ b.TextRoom bytes := by
  simp only [requireTexts, Outcome.bind_eq_ok, requireOpen_eq_ok, requireKind_eq_ok,
    requireRoom_eq_ok] at h
  obtain ⟨-, hopen, -, hkind, -, hroom, htext⟩ := h
  exact ⟨hopen, hkind, hroom, textRoom_of_eq_ok htext⟩

/-! ### Additions -/

theorem push_ofOption (b : Builder) (f : Primitive) (v : Option f.Carrier) :
    b.push (Entry.ofOption (.element f) v) = b.pushOption f v := by
  cases v <;> rfl

theorem push_ofOption_text (b : Builder) (s : Option String) :
    b.push (Entry.ofOption .text s) = b.pushOptionText s := by
  cases s <;> rfl

/-- What writing rows leaves, if it can write them all. -/
theorem outcome_writeRows (b : Builder) (r : Rows) : (writeRows r).outcome b = b.write r := by
  cases r with
  | value f v => rfl
  | null =>
    simp only [writeRows, Edit.outcome_step, write, Rows.entries, List.foldlM_cons, List.foldlM_nil, push]
    exact (bind_pure _).symm
  | nulls count => exact Edit.outcome_times (f := push) (a := .null) (Edit.outcome_step _) count b
  | repeated f v count => exact Edit.outcome_step _ b
  | values f vs =>
    exact (Edit.outcome_forM (f := fun b v => b.push (.element f v)) (fun _ _ => rfl) b).trans
      List.foldlM_map.symm
  | options f vs =>
    refine (Edit.outcome_forM (f := fun b v => b.push (Entry.ofOption (.element f) v)) ?_ b).trans
      List.foldlM_map.symm
    exact fun v b => (Edit.outcome_step _ b).trans (b.push_ofOption f v).symm
  | text s => rfl
  | texts ss =>
    exact (Edit.outcome_forM (f := fun b s => b.push (.text s)) (fun _ _ => rfl) b).trans
      List.foldlM_map.symm
  | optionTexts ss =>
    refine (Edit.outcome_forM (f := fun b s => b.push (Entry.ofOption .text s)) ?_ b).trans
      List.foldlM_map.symm
    exact fun s b => (Edit.outcome_step _ b).trans (b.push_ofOption_text s).symm

/-- **Adding rows** is checking and then writing them. -/
theorem append_eq (b : Builder) (r : Rows) : b.append r = b.requireRows r >>= fun _ => b.write r := by
  rw [append, addRows, Edit.outcome_check_bind, outcome_writeRows]

/-- Entries that bring no text leave room for it. -/
theorem textRoom_of_size {b : Builder} {es : List Entry} (h : ∀ e ∈ es, e.size = 0) :
    b.TextRoom (total (es.map Entry.size)) := by
  rw [total_eq_zero (by simpa using h)]
  exact b.textRoom_zero

/-- What has been checked of rows that can be added. -/
theorem of_requireRows {b : Builder} {r : Rows} {u : Unit} (h : b.requireRows r = .ok u) :
    b.phase = .opened ∧ (∀ e ∈ r.entries, e.Suits b.kind) ∧
      b.rows + r.entries.length ≤ b.capacity ∧ b.TextRoom (total (r.entries.map Entry.size)) := by
  cases r with
  | value f v =>
    obtain ⟨hopen, hform, hroom⟩ := requireElements_eq_ok.mp h
    exact ⟨hopen, by simp [Rows.entries, Entry.Suits, hform], hroom,
      textRoom_of_size (by simp [Rows.entries, Entry.size])⟩
  | null =>
    simp only [requireRows, Outcome.bind_eq_ok, requireOpen_eq_ok, requireRoom_eq_ok] at h
    obtain ⟨-, hopen, hroom⟩ := h
    exact ⟨hopen, by simp [Rows.entries, Entry.Suits], hroom,
      textRoom_of_size (by simp [Rows.entries, Entry.size])⟩
  | nulls count =>
    simp only [requireRows, Outcome.bind_eq_ok, requireOpen_eq_ok, requireRoom_eq_ok] at h
    obtain ⟨-, hopen, hroom⟩ := h
    exact ⟨hopen, by simp [Rows.entries, Entry.Suits], by simpa [Rows.entries] using hroom,
      textRoom_of_size (by simp [Rows.entries, Entry.size])⟩
  | repeated f v count =>
    obtain ⟨hopen, hform, hroom⟩ := requireElements_eq_ok.mp h
    exact ⟨hopen, by simp [Rows.entries, Entry.Suits, hform], by simpa [Rows.entries] using hroom,
      textRoom_of_size (by simp [Rows.entries, Entry.size])⟩
  | values f vs =>
    obtain ⟨hopen, hform, hroom⟩ := requireElements_eq_ok.mp h
    exact ⟨hopen, by simp [Rows.entries, Entry.Suits, hform], by simpa [Rows.entries] using hroom,
      textRoom_of_size (by simp [Rows.entries, Entry.size])⟩
  | options f vs =>
    obtain ⟨hopen, hform, hroom⟩ := requireElements_eq_ok.mp h
    exact ⟨hopen, Entry.forall_mem_map_ofOption trivial (fun _ => hform) vs,
      by simpa [Rows.entries] using hroom,
      textRoom_of_size (Entry.forall_mem_map_ofOption (P := (·.size = 0)) rfl (fun _ => rfl) vs)⟩
  | text s =>
    obtain ⟨hopen, hkind, hroom, htext⟩ := of_requireTexts h
    exact ⟨hopen, by simp [Rows.entries, Entry.Suits, hkind], hroom, htext⟩
  | texts ss =>
    obtain ⟨hopen, hkind, hroom, htext⟩ := of_requireTexts h
    exact ⟨hopen, by simp [Rows.entries, Entry.Suits, hkind], by simpa [Rows.entries] using hroom,
      by simpa [Rows.entries, Function.comp_def, Entry.size] using htext⟩
  | optionTexts ss =>
    obtain ⟨hopen, hkind, hroom, htext⟩ := of_requireTexts h
    have hsize : (fun s => (Entry.ofOption .text s).size) = fun s => s.elim 0 textSize := by
      funext s
      cases s <;> rfl
    exact ⟨hopen, Entry.forall_mem_map_ofOption trivial (fun _ => hkind) ss,
      by simpa [Rows.entries] using hroom,
      by simpa [Rows.entries, Function.comp_def, hsize] using htext⟩

/-- **An addition that succeeds** has passed its checks and is its entries written. -/
theorem append_eq_ok {b b' : Builder} {r : Rows} (h : b.append r = .ok b') :
    b.phase = .opened ∧ (∀ e ∈ r.entries, e.Suits b.kind) ∧
      b.rows + r.entries.length ≤ b.capacity ∧ b.TextRoom (total (r.entries.map Entry.size)) ∧
      b.write r = .ok b' := by
  rw [append_eq, Outcome.bind_eq_ok] at h
  obtain ⟨_, hcheck, hwrite⟩ := h
  obtain ⟨hopen, hsuits, hroom, htext⟩ := of_requireRows hcheck
  exact ⟨hopen, hsuits, hroom, htext, hwrite⟩

theorem outcome_takeElements (b : Builder) (source : Shape) (p : Payload) :
    (takeElements source p).outcome b =
      b.elements.extend p.elements source.rows b.kind.stride >>= fun e => .ok { b with elements := e } := by
  have hget : (takeElements source p).outcome b =
      (Edit.part Builder.elements (fun b elements => { b with elements := elements })
        (Elements.takeOver p.elements source.rows b.kind.stride)).outcome b := rfl
  rw [hget, Edit.outcome_eq, Edit.exec_part, Elements.extend, Edit.outcome_eq]
  rcases (Elements.takeOver p.elements source.rows b.kind.stride).exec b.elements with ⟨_ | ⟨⟩, e⟩ <;> rfl

theorem outcome_takeValidity (b : Builder) (source : Shape) (p : Payload) :
    (takeValidity source p).outcome b =
      match p.validity with
      | some theirs => b.mergeValidity theirs source.rows
      | none => .ok b := by
  unfold takeValidity
  cases p.validity with
  | none => rfl
  | some theirs => exact Edit.outcome_step _ b

/-- **A column's rows are written** to the elements, to the bits if it has any, and then the counts
are. -/
theorem outcome_writeColumn_eq_ok {b b' : Builder} {source : Shape} {p : Payload} :
    (writeColumn source p).outcome b = .ok b' ↔
      ∃ e v, b.elements.extend p.elements source.rows b.kind.stride = .ok e ∧
        (∀ theirs, p.validity = some theirs →
          ∃ mine, b.validityOrNew.merge? b.rows theirs source.rows = some mine ∧ v = some mine) ∧
        (p.validity = none → v = b.validity) ∧
        b' = { b with
          elements := e, validity := v, rows := b.rows + source.rows, nulls := b.nulls + source.nulls } := by
  rw [writeColumn, Edit.outcome_bind, outcome_takeElements]
  simp only [Edit.outcome_bind, Edit.outcome_modify, Outcome.bind_eq_ok, outcome_takeValidity]
  cases hv : p.validity with
  | none =>
    constructor
    · rintro ⟨t, ⟨e, he, ht⟩, u, hu, w, hw, hb⟩
      cases ht
      cases hu
      cases hw
      cases hb
      exact ⟨e, b.validity, he, by simp, fun _ => rfl, rfl⟩
    · rintro ⟨e, v, he, -, hnone, rfl⟩
      obtain rfl := hnone rfl
      exact ⟨_, ⟨e, he, rfl⟩, _, rfl, _, rfl, rfl⟩
  | some theirs =>
    simp only [mergeValidity, Outcome.bind_eq_ok, Outcome.ofOption_eq_ok, Outcome.pure_eq_ok]
    constructor
    · rintro ⟨t, ⟨e, he, ht⟩, u, ⟨mine, hmine, hu⟩, w, hw, hb⟩
      cases ht
      cases hu
      cases hw
      cases hb
      refine ⟨e, some mine, he, ?_, by simp, rfl⟩
      rintro _ ⟨⟩
      exact ⟨mine, hmine, rfl⟩
    · rintro ⟨e, v, he, hsome, -, rfl⟩
      obtain ⟨mine, hmine, rfl⟩ := hsome theirs rfl
      exact ⟨_, ⟨e, he, rfl⟩, _, ⟨mine, hmine, rfl⟩, _, rfl, rfl⟩

/-- **Adding a column's rows** is checking and then writing them. -/
theorem appendColumn_eq (b : Builder) (source : Shape) (p : Payload) :
    b.appendColumn source p = b.requireColumn source >>= fun _ => (writeColumn source p).outcome b := by
  rw [appendColumn, addColumn, Edit.outcome_check_bind]

/-! ### Refusals -/

theorem inBounds_requireOpen (b : Builder) : b.requireOpen.InBounds := by
  unfold requireOpen
  cases b.phase
  · exact Outcome.inBounds_ok ()
  · exact Outcome.inBounds_refuse _
  · exact Outcome.inBounds_refuse _

theorem inBounds_requireTextRoom (b : Builder) (bytes : Nat) : (b.requireTextRoom bytes).InBounds := by
  unfold requireTextRoom
  cases b.elements
  · exact Outcome.inBounds_ok ()
  · exact Outcome.inBounds_check

theorem inBounds_requireElements (b : Builder) (f : Primitive) (n : Nat) :
    (b.requireElements f n).InBounds :=
  b.inBounds_requireOpen.bind fun _ _ => Outcome.inBounds_check.bind fun _ _ => Outcome.inBounds_check

theorem inBounds_requireNulls (b : Builder) (n : Nat) :
    (do b.requireOpen; b.requireRoom n : Outcome Unit).InBounds :=
  b.inBounds_requireOpen.bind fun _ _ => Outcome.inBounds_check

theorem inBounds_requireTexts (b : Builder) (n bytes : Nat) : (b.requireTexts n bytes).InBounds :=
  b.inBounds_requireOpen.bind fun _ _ => Outcome.inBounds_check.bind fun _ _ =>
    Outcome.inBounds_check.bind fun _ _ => b.inBounds_requireTextRoom bytes

/-- Checks refuse, they do not reach anywhere. -/
theorem inBounds_requireRows (b : Builder) (r : Rows) : (b.requireRows r).InBounds := by
  cases r with
  | value f v => exact b.inBounds_requireElements f 1
  | null => exact b.inBounds_requireNulls 1
  | nulls count => exact b.inBounds_requireNulls count
  | repeated f v count => exact b.inBounds_requireElements f count
  | values f vs => exact b.inBounds_requireElements f vs.length
  | options f vs => exact b.inBounds_requireElements f vs.length
  | text s => exact b.inBounds_requireTexts 1 _
  | texts ss => exact b.inBounds_requireTexts ss.length _
  | optionTexts ss => exact b.inBounds_requireTexts ss.length _

theorem inBounds_requireColumn (b : Builder) (source : Shape) : (b.requireColumn source).InBounds :=
  b.inBounds_requireOpen.bind fun _ _ => Outcome.inBounds_check.bind fun _ _ => Outcome.inBounds_check

theorem willing_writeRows (r : Rows) : (writeRows r).Willing := by
  have hnull (b : Builder) (error : ColumnError) : b.pushNull ≠ .error (.refused error) := by
    unfold pushNull
    cases b.validityOrNew.clear? b.rows <;> simp [Outcome.ofOption, bind, Except.bind, pure, Except.pure]
  cases r with
  | value f v => exact .modify _
  | null => exact .step hnull
  | nulls count => exact .times (.step hnull) count
  | repeated f v count =>
    refine .step fun b error => ?_
    unfold pushRepeated
    cases b.elements with
    | strings offsets text => simp [bind, Except.bind, pure, Except.pure]
    | fixed buffer =>
      simp only
      cases buffer.appendRepeated? (f.encode v) count <;>
        simp [Outcome.ofOption, bind, Except.bind, pure, Except.pure, Functor.map, Except.map]
  | values f vs => exact .forM fun v => .modify _
  | options f vs =>
    refine .forM fun v => .step fun b error => ?_
    cases v with
    | none => exact hnull b error
    | some v => simp [pushOption]
  | text s => exact .modify _
  | texts ss => exact .forM fun s => .modify _
  | optionTexts ss =>
    refine .forM fun s => .step fun b error => ?_
    cases s with
    | none => exact hnull b error
    | some s => simp [pushOptionText]

/-- **Rows that are refused** leave the builder as it was. -/
theorem careful_addRows (r : Rows) : (addRows r).Careful :=
  .check_bind (.of_willing (willing_writeRows r))

theorem careful_takeElements (source : Shape) (p : Payload) : (takeElements source p).Careful :=
  fun b => Edit.Careful.part (fun (b : Builder) e => { b with elements := e }) (fun _ => rfl)
    (Elements.careful_takeOver p.elements source.rows b.kind.stride) b

theorem willing_takeValidity (source : Shape) (p : Payload) : (takeValidity source p).Willing := by
  unfold takeValidity
  cases p.validity with
  | none => exact .pure ()
  | some theirs =>
    refine .step fun b error => ?_
    unfold mergeValidity
    cases b.validityOrNew.merge? b.rows theirs source.rows <;>
      simp [Outcome.ofOption, bind, Except.bind, pure, Except.pure]

theorem careful_writeColumn (source : Shape) (p : Payload) : (writeColumn source p).Careful :=
  .bind (careful_takeElements source p) fun _ =>
    .bind (willing_takeValidity source p) fun _ => .bind (.modify _) fun _ => .modify _

/-- **A column that is refused** leaves the builder as it was. -/
theorem careful_addColumn (source : Shape) (p : Payload) : (addColumn source p).Careful :=
  .check_bind (careful_writeColumn source p)

end Builder

end Columnar
