/-
What builders refuse, and that a refusal changes nothing.

An addition asks something of the builder's kind and brings a number of rows; what
a builder has against that is its `objection?`, the first of three things in a
fixed order. An addition is refused with the objection if there is one
(`Builder.requireRows_eq`, `Builder.requireColumn_eq`), and else it is made.

In a session (`additions_of_reachable`) an addition that is not taken leaves every
builder as it was, since the work it does on one undoes nothing and yet leaves it
alone (`Work.Careful`).
-/
import Columnar.Proofs.Forms

namespace Columnar

/-! ## Objections -/

/-- What rows ask of the kind of a builder: nothing, a form that it stores, or the
kind itself. -/
inductive Demand where
  | any
  | form (f : Primitive)
  | kind (k : Kind)

/-- What a kind has against a demand. -/
def Demand.objection? (d : Demand) (k : Kind) : Option ColumnError :=
  match d with
  | any => none
  | form f => if k.storage = f.kind then none else some (.wrongKind k f.kind)
  | kind l => if k = l then none else some (.wrongKind k l)

theorem Demand.primitive?_of_form {f : Primitive} {k : Kind} (h : (form f).objection? k = none) :
    k.primitive? = some f := by
  by_cases heq : k.storage = f.kind
  · exact Kind.storage_eq_kind.mp heq
  · simp [objection?, heq] at h

theorem Demand.eq_of_kind {k l : Kind} (h : (kind l).objection? k = none) : k = l := by
  by_cases heq : k = l
  · exact heq
  · simp [objection?, heq] at h

namespace Rows

/-- What the rows ask of a kind. -/
def demand : Rows → Demand
  | value f _ => .form f
  | null => .any
  | nulls _ => .any
  | repeated f _ _ => .form f
  | values f _ => .form f
  | options f _ => .form f
  | text _ => .kind .string
  | texts _ => .kind .string
  | optionTexts _ => .kind .string

/-- How many rows there are. -/
def count (r : Rows) : Nat := r.entries.length

/-- The bytes of text in the rows. -/
def textSize (r : Rows) : Nat := total (r.entries.map Entry.size)

end Rows

namespace Builder

/-- The first thing that a builder has against `n` rows with a demand: that it is
not open, that they are not of its kind, or that there is no room for them. -/
def objection? (b : Builder) (d : Demand) (n : Nat) : Option ColumnError :=
  match b.phase with
  | .finished => some .builderFinished
  | .closed => some .builderClosed
  | .opened =>
    match d.objection? b.kind with
    | some e => some e
    | none =>
      if b.rows + n ≤ b.capacity then none
      else some (.capacityExceeded (min (b.rows + n) (2 ^ indexBits - 1)) b.capacity)

/-- Refuses what a builder objects to. -/
def require (b : Builder) (d : Demand) (n : Nat) : Outcome Unit :=
  match b.objection? d n with
  | some e => refuse e
  | none => .ok ()

/-- That offsets reach the end of the text with this many more bytes. -/
def TextFits (b : Builder) (n : Nat) : Prop :=
  ∀ offsets text, b.elements = .strings offsets text → text.length + n ≤ maxTextBytes

variable {b b' : Builder} {k : Kind} {n : Nat} {marks : List Bool} {present : Bool}

theorem objection?_eq_none {d : Demand} :
    b.objection? d n = none ↔
      b.phase = .opened ∧ d.objection? b.kind = none ∧ b.rows + n ≤ b.capacity := by
  unfold objection?
  cases b.phase with
  | opened =>
    cases hd : d.objection? b.kind with
    | some e => simp
    | none => simp
  | finished => simp
  | closed => simp

theorem require_of_none {d : Demand} (h : b.objection? d n = none) : b.require d n = .ok () := by
  rw [require, h]

theorem require_of_some {d : Demand} {e : ColumnError} (h : b.objection? d n = some e) :
    b.require d n = refuse e := by
  rw [require, h]

/-! ### Checks as objections -/

/-- Checks of a kind between the first check and the last. -/
theorem require_eq_checks {d : Demand} (check : Outcome Unit)
    (h : check = match d.objection? b.kind with | some e => refuse e | none => .ok ()) :
    (do b.requireOpen; check; b.requireRoom n) = b.require d n := by
  unfold requireOpen require objection?
  cases hphase : b.phase with
  | finished => rfl
  | closed => rfl
  | opened =>
    rw [h]
    cases d.objection? b.kind with
    | some e => rfl
    | none =>
      simp only [requireRoom]
      by_cases hroom : b.rows + n ≤ b.capacity <;> simp only [hroom, if_true, if_false] <;> rfl

theorem requireElements_eq (b : Builder) (f : Primitive) (n : Nat) :
    b.requireElements f n = b.require (.form f) n := by
  refine require_eq_checks _ ?_
  unfold requireForm Demand.objection?
  by_cases hform : b.kind.storage = f.kind <;> simp [hform]

theorem requireColumn_eq (b : Builder) (source : Shape) :
    b.requireColumn source = b.require (.kind source.kind) source.rows := by
  refine require_eq_checks _ ?_
  unfold requireKind Demand.objection?
  by_cases hkind : b.kind = source.kind <;> simp [hkind]

theorem requireNulls_eq (b : Builder) (n : Nat) :
    (do b.requireOpen; b.requireRoom n) = b.require .any n :=
  require_eq_checks (.ok ()) rfl

theorem requireTexts_eq {bytes : Nat} (h : b.objection? (.kind .string) n = none → b.TextFits bytes) :
    b.requireTexts n bytes = b.require (.kind .string) n := by
  have hchecks : (do b.requireOpen; b.requireKind .string; b.requireRoom n) =
      b.require (.kind .string) n := requireColumn_eq b ⟨.string, n, 0, false⟩
  have hlast : b.requireTexts n bytes =
      (do (do b.requireOpen; b.requireKind .string; b.requireRoom n); b.requireTextRoom bytes) := by
    simp only [requireTexts, bind_assoc]
  rw [hlast, hchecks]
  cases hobjection : b.objection? (.kind .string) n with
  | some e => rw [require_of_some hobjection]; rfl
  | none =>
    rw [require_of_none hobjection]
    unfold requireTextRoom
    cases he : b.elements with
    | fixed buffer => rfl
    | strings offsets text =>
      have hfits : Elements.textFits text.length bytes = true := by
        simpa [Elements.textFits] using h hobjection offsets text he
      simp only [hfits, if_true]
      rfl

/-- **The checks of rows** find the objection, where offsets reach the end of the text. -/
theorem requireRows_eq {r : Rows} (h : b.objection? r.demand r.count = none → b.TextFits r.textSize) :
    b.requireRows r = b.require r.demand r.count := by
  cases r with
  | value f v => exact b.requireElements_eq f 1
  | null => exact b.requireNulls_eq 1
  | nulls m =>
    have hcount : (Rows.nulls m).count = m := by simp [Rows.count, Rows.entries]
    rw [hcount]
    exact b.requireNulls_eq m
  | repeated f v m =>
    have hcount : (Rows.repeated f v m).count = m := by simp [Rows.count, Rows.entries]
    rw [hcount]
    exact b.requireElements_eq f m
  | values f vs =>
    have hcount : (Rows.values f vs).count = vs.length := by simp [Rows.count, Rows.entries]
    rw [hcount]
    exact b.requireElements_eq f vs.length
  | options f vs =>
    have hcount : (Rows.options f vs).count = vs.length := by simp [Rows.count, Rows.entries]
    rw [hcount]
    exact b.requireElements_eq f vs.length
  | text s => exact requireTexts_eq h
  | texts ss =>
    have hcount : (Rows.texts ss).count = ss.length := by simp [Rows.count, Rows.entries]
    have hsize : (Rows.texts ss).textSize = total (ss.map textSize) := by
      simp [Rows.textSize, Rows.entries, Function.comp_def, Entry.size]
    rw [hcount, hsize] at h
    rw [hcount]
    exact requireTexts_eq h
  | optionTexts ss =>
    have hcount : (Rows.optionTexts ss).count = ss.length := by simp [Rows.count, Rows.entries]
    have hsize : (Rows.optionTexts ss).textSize = total (ss.map fun s => s.elim 0 textSize) := by
      have hentry : (fun s => (Entry.ofOption .text s).size) = fun s => s.elim 0 textSize := by
        funext s
        cases s <;> rfl
      simp [Rows.textSize, Rows.entries, Function.comp_def, hentry]
    rw [hcount, hsize] at h
    rw [hcount]
    exact requireTexts_eq h

/-- Rows with no objection are just written. -/
theorem append_of_none {r : Rows} (hfits : b.TextFits r.textSize)
    (h : b.objection? r.demand r.count = none) : b.append r = b.write r := by
  rw [append_eq, requireRows_eq fun _ => hfits, require_of_none h]
  rfl

/-! ### Builders of rows -/

/-- **Rows with no objection are added.** -/
theorem Holds.append_ok {rows : List Row} (h : b.Holds k n rows present) {r : Rows}
    (hfits : b.TextFits r.textSize) (hnone : b.objection? r.demand r.count = none) :
    ∃ b', b.append r = .ok b' := by
  have hrequire : b.requireRows r = .ok () := by
    rw [requireRows_eq fun _ => hfits, require_of_none hnone]
  obtain ⟨-, hsuits, hroom, -⟩ := of_requireRows hrequire
  rw [h.kind] at hsuits
  rw [h.rows, h.capacity, List.length_map] at hroom
  rw [append_of_none hfits hnone]
  exact h.write_ok hsuits hroom

/-- Text that fits behind that of a builder. -/
theorem Holds.fits_append {rows source : List Row} (h : b.Holds k n rows present) {c : Column}
    (hc : c.Holds source) (hkind : c.kind = k) (hfits : b.TextFits c.payload.elements.data.length) :
    Elements.Fits k ((rows ++ source).map Row.cell) := by
  rintro rfl
  obtain ⟨text, hstrings, hcontent⟩ := Elements.finish_eq_lay_string.mp h.elements
  have hlen : text.length = (rows.map Row.cell).flatten.length := by
    rw [← hcontent, Buffer.length_toList]
  have hdata : c.payload.elements.data.length = (source.map Row.cell).flatten.length := by
    rw [hc.elements, hkind, Elements.lay_string]
    rfl
  have hsum := hfits _ text hstrings
  rw [List.map_append, List.flatten_append, List.length_append]
  omega

/-- **A column with no objection is added.** -/
theorem Holds.appendColumn_of_none {rows : List Row} (h : b.Holds k n rows present) {c : Column}
    (hc : c.WellFormed) (hfits : b.TextFits c.payload.elements.data.length)
    (hnone : b.objection? (.kind c.kind) c.rows = none) :
    ∃ b', b.appendColumn c.shape c.payload = .ok b' := by
  obtain ⟨-, hdemand, hroom⟩ := objection?_eq_none.mp hnone
  obtain ⟨source, hsource⟩ := hc.holds
  have hkind : c.kind = k := (Demand.eq_of_kind hdemand).symm.trans h.kind
  rw [h.rows, h.capacity, List.length_map, ← hsource.length] at hroom
  exact h.appendColumn_ok hsource hkind hroom (h.fits_append hsource hkind hfits)

/-- A builder that is not open takes nothing, and reaches nowhere. -/
theorem WellFormed.inBounds_append (h : b.WellFormed) (r : Rows) : (b.append r).InBounds := by
  by_cases hopen : b.phase = .opened
  · obtain ⟨rows, present, hholds⟩ := h hopen
    exact hholds.inBounds_append r
  · rw [append_eq]
    exact (b.inBounds_requireRows r).bind fun _ hrequire => absurd (of_requireRows hrequire).1 hopen

theorem WellFormed.inBounds_appendColumn (h : b.WellFormed) {c : Column} (hc : c.WellFormed) :
    (b.appendColumn c.shape c.payload).InBounds := by
  by_cases hopen : b.phase = .opened
  · obtain ⟨rows, present, hholds⟩ := h hopen
    exact hholds.inBounds_appendColumn hc
  · rw [appendColumn_eq]
    refine (b.inBounds_requireColumn c.shape).bind fun _ hrequire => ?_
    simp only [requireColumn, Outcome.bind_eq_ok, requireOpen_eq_ok] at hrequire
    obtain ⟨-, hopened, -⟩ := hrequire
    exact absurd hopened hopen

end Builder

/-! ## Additions in sessions -/

open Session

namespace Action

variable {s : Session} {name v : String} {b : Builder} {c : Column} {sh : Shape}

theorem exec_append_rows (name : String) (r : Rows) (s : Session) :
    (append name (.rows r)).exec s = (addTo name (.rows r)).exec s := rfl

theorem exec_append_vector (hv : (shape v).exec s = (.ok sh, s)) :
    (append name (.vector v)).exec s = (addTo name (.vector v)).exec s := by
  simp only [append, exec_bind, hv]

/-- **Extending a builder** of a sound session reaches nowhere out of bounds. -/
theorem extended_ne_outOfBounds (hs : s.Sound Column.WellFormed Builder.WellFormed) (hb : b.WellFormed)
    (a : Addition) : ((extended b a).exec s).1 ≠ .error (.fault .outOfBounds) := by
  have hact {x : Outcome Builder} (h : x.InBounds) (t : Session) :
      (x.act.exec t).1 ≠ .error (.fault .outOfBounds) := by
    rw [exec_act]
    rcases x with (e | _) | b'
    · simp
    · exact absurd rfl h
    · simp
  cases a with
  | rows r => exact hact (hb.inBounds_append r) s
  | vector v =>
    cases hv : s.storage? v with
    | none =>
      simp only [extended, shape, exec_bind, exec_storage_none hv]
      simp
    | some p =>
      obtain ⟨hid, hst⟩ := storage?_eq_some.mp hv
      have hc : s.shown? v = some (s.columnOf p.2) := shown?_eq_some.mpr ⟨_, _, hid, hst, rfl⟩
      have hrequired := b.inBounds_requireColumn (s.columnOf p.2).shape
      rw [exec_extended_vector (exec_shape hs.coherent hc)]
      rcases hrequire : b.requireColumn (s.columnOf p.2).shape with (e | _) | u
      · simp
      · exact absurd hrequire hrequired
      · simp only [exec_of_materialize hs.coherent hc]
        rcases hp : (materialize v).exec s with ⟨stop | p', s'⟩
        · obtain ⟨e, rfl⟩ := error_of_materialize hc (by rw [hp])
          simp
        · exact hact (hb.inBounds_appendColumn (hs.shown hc)) s'

/-- **An addition that is not taken** leaves every builder as it was. -/
theorem builders_append (hb : s.builders.find? name = some b) (a : Addition) :
    (∃ b', ((append name a).exec s).1 = .ok (.builder b' none)) ∨
      ((append name a).exec s).2.builders = s.builders := by
  have hadd : (∃ b', ((addTo name a).exec s).1 = .ok (.builder b' none)) ∨
      ((addTo name a).exec s).2.builders = s.builders := by
    have hkept := builders_extended b a s
    rw [exec_addTo hb]
    rcases hx : (extended b a).exec s with ⟨stop | b', s'⟩
    · rw [hx] at hkept
      rcases stop with (⟨e⟩ | _) | other <;> exact .inr hkept
    · exact .inl ⟨b', rfl⟩
  cases a with
  | rows r => exact hadd
  | vector v =>
    have hsame := shape_exec v s
    rcases hv : (shape v).exec s with ⟨stop | sh, s'⟩
    · rw [hv] at hsame
      refine .inr ?_
      simp only [append, exec_bind, hv, hsame]
    · rw [hv] at hsame
      obtain rfl : s' = s := hsame
      rwa [exec_append_vector hv]

/-- An addition reaches nowhere out of bounds. -/
theorem append_ne_outOfBounds (hs : s.Sound Column.WellFormed Builder.WellFormed)
    (hb : s.builders.find? name = some b) (a : Addition) :
    ((append name a).exec s).1 ≠ .error (.fault .outOfBounds) := by
  have hadd : ((addTo name a).exec s).1 ≠ .error (.fault .outOfBounds) := by
    have hbounds := extended_ne_outOfBounds hs (hs.builders name b hb) a
    rw [exec_addTo hb]
    rcases hx : (extended b a).exec s with ⟨((e | _) | other) | b', s'⟩
    · simp
    · exact absurd (congrArg Prod.fst hx) hbounds
    · simp
    · simp
  cases a with
  | rows r => exact hadd
  | vector v =>
    cases hv : s.storage? v with
    | none =>
      simp only [append, shape, exec_bind, exec_storage_none hv]
      simp
    | some p =>
      obtain ⟨hid, hst⟩ := storage?_eq_some.mp hv
      have hc : s.shown? v = some (s.columnOf p.2) := shown?_eq_some.mpr ⟨_, _, hid, hst, rfl⟩
      rwa [exec_append_vector (exec_shape hs.coherent hc)]

/-! ### What is refused, and what is taken -/

/-- Rows that are objected to are refused. -/
theorem exec_append_of_objection (hb : s.builders.find? name = some b) {r : Rows} {e : ColumnError}
    (h : b.objection? r.demand r.count = some e) :
    (append name (.rows r)).exec s = (.ok (.builder b (some e)), s) := by
  have happend : b.append r = refuse e := by
    rw [Builder.append_eq, Builder.requireRows_eq fun hnone => absurd (h.symm.trans hnone) (by simp),
      Builder.require_of_some h]
    rfl
  rw [exec_append_rows, exec_addTo hb]
  simp only [extended, happend, exec_act, refuse]

/-- A column that is objected to is refused before its data is looked at. -/
theorem exec_append_vector_of_objection (hb : s.builders.find? name = some b)
    (hv : (shape v).exec s = (.ok sh, s)) {e : ColumnError}
    (h : b.objection? (.kind sh.kind) sh.rows = some e) :
    (append name (.vector v)).exec s = (.ok (.builder b (some e)), s) := by
  have hrequire : b.requireColumn sh = refuse e := by
    rw [Builder.requireColumn_eq, Builder.require_of_some h]
  rw [exec_append_vector hv, exec_addTo hb, exec_extended_vector hv, hrequire]
  rfl

end Action

/-! ## Every reachable session -/

namespace Session

open Columnar.Action

variable {s : Session} {name : String} {b : Builder}

/-- Rows with no objection are taken. -/
theorem Reachable.append_rows (hs : s.Reachable .unlimited) (hb : s.builders.find? name = some b)
    {r : Rows} (hfits : b.TextFits r.textSize) (h : b.objection? r.demand r.count = none) :
    ∃ b', b'.rows = b.rows + r.count ∧
      (append name (.rows r)).exec s = (.ok (.builder b' none), s.setBuilder name b') := by
  have hopen := (Builder.objection?_eq_none.mp h).1
  obtain ⟨held, present, hholds⟩ := (hs.sound invariant_wellFormed).builders name b hb hopen
  obtain ⟨b', hb'⟩ := hholds.append_ok hfits h
  have hrows := (hholds.append hb').rows
  rw [List.map_append, List.length_append, List.length_map, List.length_map, List.length_map] at hrows
  have hheld := hholds.rows
  rw [List.length_map] at hheld
  refine ⟨b', by rw [hrows, hheld]; rfl, ?_⟩
  rw [exec_append_rows, exec_addTo hb]
  simp only [extended, hb', exec_act]

/-- A column with no objection is taken once its data is brought, and else refused
with the device's error. -/
theorem Reachable.append_vector (hs : s.Reachable .unlimited) (hb : s.builders.find? name = some b)
    {v : String} {c : Column} (hc : s.shown? v = some c)
    (hfits : b.TextFits c.payload.elements.data.length)
    (h : b.objection? (.kind c.kind) c.rows = none) :
    (∀ p s', (materialize v).exec s = (.ok p, s') → ∃ b', b'.rows = b.rows + c.rows ∧
        (append name (.vector v)).exec s = (.ok (.builder b' none), s'.setBuilder name b')) ∧
      ∀ stop s', (materialize v).exec s = (.error stop, s') → ∃ e, stop = .fault (.refused (.device e)) ∧
        (append name (.vector v)).exec s = (.ok (.builder b (some (.device e))), s') := by
  have hsound := hs.sound invariant_wellFormed
  have hopen := (Builder.objection?_eq_none.mp h).1
  obtain ⟨held, present, hholds⟩ := hsound.builders name b hb hopen
  have hrequire : b.requireColumn c.shape = .ok () := by
    rw [Builder.requireColumn_eq]
    exact Builder.require_of_none h
  have hv := exec_shape hsound.coherent hc
  have hexec := exec_extended_vector (b := b) hv
  rw [hrequire, exec_of_materialize hsound.coherent hc fun p => (b.appendColumn c.shape p).act] at hexec
  rw [exec_append_vector hv, exec_addTo hb, hexec]
  refine ⟨fun p s' hp => ?_, fun stop s' hp => ?_⟩
  · obtain ⟨b', hb'⟩ := hholds.appendColumn_of_none (hsound.shown hc) hfits h
    have hrows : b'.rows = b.rows + c.rows := by
      obtain ⟨-, -, _, _, -, -, -, rfl⟩ := Builder.appendColumn_eq_ok hb'
      rfl
    refine ⟨b', hrows, ?_⟩
    simp only [hp, hb', exec_act]
  · obtain ⟨e, rfl⟩ := error_of_materialize hc (by rw [hp])
    refine ⟨e, rfl, ?_⟩
    simp only [hp]

/-- **What is refused, and what that leaves.** In a session that commands lead to, an
addition to a builder that has an objection is refused with it and leaves the session
as it was, the data of a column included. Rows without an objection are taken if
offsets reach the end of the text, and so is a column once its data is brought; one
whose data is not brought is refused with the device's error. Whatever an addition
that is not taken leaves behind, no builder has changed, and nothing was reached out
of bounds. -/
theorem additions_of_reachable (hs : s.Reachable .unlimited) (hb : s.builders.find? name = some b) :
    (∀ r e, b.objection? r.demand r.count = some e →
      (append name (.rows r)).exec s = (.ok (.builder b (some e)), s)) ∧
    (∀ v c e, s.shown? v = some c → b.objection? (.kind c.kind) c.rows = some e →
      (append name (.vector v)).exec s = (.ok (.builder b (some e)), s)) ∧
    (∀ r, b.TextFits r.textSize → b.objection? r.demand r.count = none →
      ∃ b', b'.rows = b.rows + r.count ∧
        (append name (.rows r)).exec s = (.ok (.builder b' none), s.setBuilder name b')) ∧
    (∀ v c, s.shown? v = some c → b.TextFits c.payload.elements.data.length →
      b.objection? (.kind c.kind) c.rows = none →
      (∀ p s', (materialize v).exec s = (.ok p, s') → ∃ b', b'.rows = b.rows + c.rows ∧
        (append name (.vector v)).exec s = (.ok (.builder b' none), s'.setBuilder name b')) ∧
      ∀ stop s', (materialize v).exec s = (.error stop, s') →
        ∃ e, stop = .fault (.refused (.device e)) ∧
          (append name (.vector v)).exec s = (.ok (.builder b (some (.device e))), s')) ∧
    ∀ a, ((append name a).exec s).1 ≠ .error (.fault .outOfBounds) ∧
      ((∃ b', ((append name a).exec s).1 = .ok (.builder b' none)) ∨
        ((append name a).exec s).2.builders = s.builders) := by
  have hsound := hs.sound invariant_wellFormed
  refine ⟨fun r e h => exec_append_of_objection hb h, fun v c e hc h => ?_,
    fun r hfits h => hs.append_rows hb hfits h, fun v c hc hfits h => hs.append_vector hb hc hfits h,
    fun a => ⟨append_ne_outOfBounds hsound hb a, builders_append hb a⟩⟩
  exact exec_append_vector_of_objection hb (exec_shape hsound.coherent hc) h

/-- Two strings are taken by a builder that has room for them, and three are not. -/
theorem additions_of_texts :
    let s := (Session.run { config := none } [.newBuilder "b" .string 2 false]).2
    s.Reachable .unlimited ∧
      (append "b" (.rows (.texts ["a", "b", "c"]))).exec s =
        (.ok (.builder (.new .string 2) (some (.capacityExceeded 3 2))), s) ∧
      ∃ b', b'.rows = 2 ∧
        (append "b" (.rows (.texts ["a", "b"]))).exec s = (.ok (.builder b' none), s.setBuilder "b" b') := by
  intro s
  have hs : s.Reachable .unlimited := by
    refine (Reachable.start none).run ?_
    simp [Command.Within]
  have hb : s.builders.find? "b" = some (.new .string 2) := rfl
  have hfits : (Builder.new .string 2).TextFits (Rows.texts ["a", "b"]).textSize := by
    intro offsets text he
    cases he
    decide
  obtain ⟨hrefused, -, htaken, -⟩ := additions_of_reachable hs hb
  exact ⟨hs, hrefused (.texts ["a", "b", "c"]) _ rfl, htaken (.texts ["a", "b"]) hfits rfl⟩

end Session

end Columnar
