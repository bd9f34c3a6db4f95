/-
Which raw parts become a vector.

Parts are consistent if the data has just the bytes that the rows take, and the validity bits, where
there are some, reach all rows (`Column.Consistent`). All consistent parts that memory has room for
become a vector, each of whose elements lies in the data (`Column.ofParts_of_consistent`). All others
are refused, but for rows whose size is no index at all, which end everything
(`Column.ofParts_of_inconsistent`, `Column.ofParts_of_overflow`). So it is in every session
(`Session.parts_of_arising`).
-/
import Columnar.Proofs.Replying

namespace Columnar

/-! ## Parts -/

namespace Column

variable {k : Kind} {n : Nat} {data : Bytes} {validity : Option Bytes}

/-- That data and validity bits are those of just so many rows of a fixed width. -/
def Consistent (k : Kind) (n : Nat) (data : Bytes) (validity : Option Bytes) : Prop :=
  ∃ w, k.width? = some w ∧ data.length = n * w ∧ ∀ bytes ∈ validity, n ≤ 8 * bytes.length

/-- Sizes of consistent parts are indices, if an allocation can hold the data and an index counts
the validity bits. -/
theorem Consistent.indexed (h : Consistent k n data validity) {f : Primitive} (hf : k.primitive? = some f)
    (hdata : data.length ≤ maxSize) (hbits : ∀ bytes ∈ validity, 8 * bytes.length < 2 ^ indexBits) :
    Indexed f.width n validity := by
  obtain ⟨w, hw, hlen, -⟩ := h
  rw [Kind.width?, hf] at hw
  obtain rfl : f.width = w := Option.some.inj hw
  have hrows := Nat.le_mul_of_pos_right n f.width_pos
  simp only [maxSize, indexBits] at hdata
  refine ⟨by simp only [indexBits]; omega, fun bytes hbytes => ?_⟩
  have hbits := hbits bytes hbytes
  have halloc : 8 * Bitmap.allocationSize n ≤ n + 511 := by
    simp only [Bitmap.allocationSize, aligned, alignment]
    omega
  rw [Bitmap.capacity, Bitmap.length_ofBytes]
  simp only [indexBits] at hbits ⊢
  omega

/-- **Consistent parts** make a column of their data. -/
theorem ofParts_of_consistent (h : Consistent k n data validity) (hdata : data.length ≤ maxSize)
    (hbits : ∀ bytes ∈ validity, 8 * bytes.length < 2 ^ indexBits) :
    ∃ c f, ofParts k n data validity = .ok c ∧ k.primitive? = some f ∧ data.length = n * f.width ∧
      c.kind = k ∧ c.rows = n ∧ c.payload.elements = .fixed data := by
  obtain ⟨w, hw, hlen, hcovers⟩ := id h
  obtain ⟨f, hf, rfl⟩ := Option.map_eq_some_iff.mp hw
  exact ⟨_, f, ofParts_eq_ofBits hf (h.indexed hf hdata hbits) hlen hcovers, hf, hlen, rfl, rfl, rfl⟩

/-- **All others** are refused, as long as sizes are indices. -/
theorem ofParts_of_inconsistent (h : ¬ Consistent k n data validity) (hsize : n * k.stride < 2 ^ indexBits)
    (hbits : ∀ bytes ∈ validity, 8 * bytes.length < 2 ^ indexBits) :
    ∃ e, ofParts k n data validity = refuse e := by
  unfold ofParts
  cases hw : k.width? with
  | none => exact ⟨_, rfl⟩
  | some w =>
    have hindex : index? (n * w) = some (n * w) :=
      index?_of_lt (by simpa only [Kind.stride, hw, Option.getD_some] using hsize)
    simp only [hindex, Outcome.ofOption, bind, Except.bind]
    by_cases hlen : data.length = n * w
    · cases validity with
      | none => exact absurd ⟨w, hw, hlen, fun _ hbytes => by cases hbytes⟩ h
      | some bytes =>
        have hshort : 8 * bytes.length < n := by
          refine Nat.lt_of_not_le fun hcovers => h ⟨w, hw, hlen, ?_⟩
          rintro _ ⟨⟩
          exact hcovers
        simp only [hlen, ne_eq, not_true_eq_false, if_false, index?_of_lt (hbits bytes rfl), hshort, if_true]
        exact ⟨_, rfl⟩
    · simp only [ne_eq, hlen, not_false_eq_true, if_true]
      exact ⟨_, rfl⟩

/-- Rows whose size is no index end everything. -/
theorem ofParts_of_overflow (h : 2 ^ indexBits ≤ n * k.stride) :
    ofParts k n data validity = .error .outOfBounds := by
  unfold ofParts
  cases hw : k.width? with
  | none => simp [Kind.stride, hw] at h
  | some w =>
    rw [Kind.stride, hw, Option.getD_some] at h
    simp only [index?, if_neg (Nat.not_lt_of_le h)]
    rfl

end Column

/-! ## Elements -/

/-- An element that lies in the data. -/
theorem Elements.element?_of_lt {f : Primitive} {data : Bytes} {n : Nat} (hlen : data.length = n * f.width)
    {i : Nat} (hi : i < n) :
    element? f data i = some (f.decode ((data.drop (i * f.width)).take f.width)) := by
  have hend : i * f.width + f.width ≤ n * f.width := by
    rw [← Nat.succ_mul]
    exact Nat.mul_le_mul_right _ hi
  rw [element?, Primitive.read?, if_pos]
  rw [List.length_drop]
  omega

/-! ## Every session -/

open Session

namespace Action

variable {s : Session} {v : String} {id : Nat}

/-- An element of a vector on the host is read without a look at any runtime. -/
theorem exec_element_host {c : Column} {f : Primitive} {i handles : Nat} (hid : s.vectors.find? v = some id)
    (hst : s.storages.find? id = some ⟨c.shape, .host c.payload, handles⟩)
    (hf : c.kind.primitive? = some f) (hi : i < c.rows) :
    (element v f i).exec s = (c.payload.element f i).act.exec s := by
  have hcheck := Column.checkIndex_of_lt hi
  have hform : c.shape.checkForm f = .ok () := Outcome.check_eq_ok.mpr (Kind.storage_eq_kind.mpr hf)
  have hdata := exec_materialize_host (storage?_eq_some.mpr ⟨hid, hst⟩) (.inl rfl)
  simp only [element, shape, exec_bind, exec_storage hid hst, exec_pure, exec_act, hcheck, hform, hdata]

end Action

namespace Session

open Columnar.Action

variable {s : Session} {k : Kind} {n : Nat} {data : Bytes} {validity : Option Bytes}

theorem step_make_ofParts {c : Column} (hc : Column.ofParts k n data validity = .ok c) (v : String) :
    s.step (.make (.ofParts k n data validity) v) =
      (.vector (Storage.info ⟨c.shape, .host c.payload, 1⟩),
        (s.addStorage c.shape (.host c.payload)).2.bind v (s.ledger.registered + 1)) := by
  have hst : (s.addStorage c.shape (.host c.payload)).2.storages.find?
      (s.addStorage c.shape (.host c.payload)).1 = some ⟨c.shape, .host c.payload, 1⟩ :=
    Table.find?_insert_self _ _ _
  simp only [step_eq_exec, Action.reply, make, ofParts, addColumn, Action.addStorage, exec_bind, exec_act,
    hc, exec_modifyGet, exec_settle hst, exec_pure]
  rfl

/-- **A vector of raw parts** lies on the host under the name that is asked for. -/
theorem Arising.storage?_ofParts (hs : s.Arising) {c : Column}
    (hc : Column.ofParts k n data validity = .ok c) (v : String) :
    (s.step (.make (.ofParts k n data validity) v)).2.storage? v =
      some (s.ledger.registered + 1, ⟨c.shape, .host c.payload, 1⟩) := by
  have hproper : (s.addStorage c.shape (.host c.payload)).2.Proper fun _ => False :=
    hs.proper.addStorage rfl (unshared_host s _)
  have hst : (s.addStorage c.shape (.host c.payload)).2.storages.find? (s.ledger.registered + 1) =
      some ⟨c.shape, .host c.payload, 1⟩ := Table.find?_insert_self _ _ _
  -- No name has the number of the new storage yet, so the name that it gets takes nothing from it.
  have hfresh : (s.addStorage c.shape (.host c.payload)).2.vectors.find? v ≠
      some (s.ledger.registered + 1) :=
    fun hv => absurd (hs.proper.bound v _ hv) (Nat.not_succ_le_self _)
  obtain ⟨hid, hst, -⟩ := hproper.toOrderly.bind hst hfresh
  rw [step_make_ofParts hc]
  exact storage?_eq_some.mpr ⟨hid, hst⟩

theorem step_make_ofParts_error {fault : Fault} (h : Column.ofParts k n data validity = .error fault)
    (v : String) : s.step (.make (.ofParts k n data validity) v) = (.stopped (.fault fault), s) := by
  simp only [step_eq_exec, Action.reply, make, ofParts, exec_bind, exec_act, h]

/-- **Vectors of raw parts.** In every session that commands lead to, raw parts become a vector under
the name that is asked for just if they are consistent: it has the kind, the rows and the data, and each
of its elements is read out of the data, at its place. All others are refused, and nothing changes, nor
does it where the size of the rows is no index. The data has to fit into an allocation, and an index
has to count the validity bits. -/
theorem parts_of_arising (hs : s.Arising) (k : Kind) (n : Nat) (data : Bytes) (validity : Option Bytes)
    (v : String) (hdata : data.length ≤ maxSize)
    (hbits : ∀ bytes ∈ validity, 8 * bytes.length < 2 ^ indexBits) :
    let made := s.step (.make (.ofParts k n data validity) v)
    ((∃ info, made.1 = .vector info) ↔ Column.Consistent k n data validity) ∧
    (Column.Consistent k n data validity →
      ∃ c f, made.1 = .vector (Storage.info ⟨c.shape, .host c.payload, 1⟩) ∧ made.2.shown? v = some c ∧
        c.kind = k ∧ c.rows = n ∧ c.payload.elements = .fixed data ∧ k.primitive? = some f ∧
        ∀ i < n, ((element v f i).exec made.2).1 =
          .ok (f.decode ((data.drop (i * f.width)).take f.width))) ∧
    (¬ Column.Consistent k n data validity → n * k.stride < 2 ^ indexBits →
      ∃ e, made = (.stopped (.fault (.refused e)), s)) ∧
    (2 ^ indexBits ≤ n * k.stride → made = (.stopped (.fault .outOfBounds), s)) := by
  intro made
  have hmakes (h : Column.Consistent k n data validity) :
      ∃ c f, made.1 = .vector (Storage.info ⟨c.shape, .host c.payload, 1⟩) ∧ made.2.shown? v = some c ∧
        c.kind = k ∧ c.rows = n ∧ c.payload.elements = .fixed data ∧ k.primitive? = some f ∧
        ∀ i < n, ((element v f i).exec made.2).1 =
          .ok (f.decode ((data.drop (i * f.width)).take f.width)) := by
    obtain ⟨c, f, hc, hf, hlen, hkind, hrows, helements⟩ := Column.ofParts_of_consistent h hdata hbits
    have hmade : made.1 = _ := congrArg Prod.fst (step_make_ofParts hc v)
    have hstored : made.2.storage? v = _ := hs.storage?_ofParts hc v
    obtain ⟨hid, hst⟩ := storage?_eq_some.mp hstored
    refine ⟨c, f, hmade, shown?_eq_some.mpr ⟨_, _, hid, hst, rfl⟩, hkind, hrows, helements, hf,
      fun i hi => ?_⟩
    rw [exec_element_host hid hst (hkind ▸ hf) (hrows ▸ hi), Payload.element, helements]
    simp only [Elements.element?_of_lt hlen hi]
    rfl
  have hrefuses (h : ¬ Column.Consistent k n data validity) (hsize : n * k.stride < 2 ^ indexBits) :
      ∃ e, made = (.stopped (.fault (.refused e)), s) := by
    obtain ⟨e, he⟩ := Column.ofParts_of_inconsistent h hsize hbits
    exact ⟨e, step_make_ofParts_error he v⟩
  have hends (h : 2 ^ indexBits ≤ n * k.stride) : made = (.stopped (.fault .outOfBounds), s) :=
    step_make_ofParts_error (Column.ofParts_of_overflow h) v
  refine ⟨⟨?_, fun h => ?_⟩, hmakes, hrefuses, hends⟩
  · rintro ⟨info, hinfo⟩
    refine Classical.byContradiction fun h => ?_
    rcases Nat.lt_or_ge (n * k.stride) (2 ^ indexBits) with hsize | hsize
    · obtain ⟨e, he⟩ := hrefuses h hsize
      cases hinfo.symm.trans (congrArg Prod.fst he)
    · cases hinfo.symm.trans (congrArg Prod.fst (hends hsize))
  · obtain ⟨c, f, hmade, -⟩ := hmakes h
    exact ⟨_, hmade⟩

/-- Dates of two rows with validity bits, and the second of them. -/
theorem parts_of_dates :
    let s : Session := { config := none }
    let made := s.step (.make (.ofParts .date 2 [1, 0, 0, 0, 2, 0, 0, 0] (some [0xFE])) "v")
    s.Arising ∧ Column.Consistent .date 2 [1, 0, 0, 0, 2, 0, 0, 0] (some [0xFE]) ∧
      ∃ info, made.1 = .vector info ∧
        ((element "v" (.int .w32) 1).exec made.2).1 = .ok (2 : BitVec 32) := by
  intro s made
  have hs : s.Arising := .start none
  have hconsistent : Column.Consistent .date 2 [1, 0, 0, 0, 2, 0, 0, 0] (some [0xFE]) :=
    ⟨4, rfl, rfl, by rintro _ ⟨⟩; decide⟩
  obtain ⟨-, hmakes, -⟩ := parts_of_arising hs .date 2 [1, 0, 0, 0, 2, 0, 0, 0] (some [0xFE]) "v"
    (by decide) (by rintro _ ⟨⟩; decide)
  obtain ⟨c, f, hreply, -, -, -, -, hf, hread⟩ := hmakes hconsistent
  obtain rfl : f = .int .w32 := (Option.some.inj hf).symm
  exact ⟨hs, hconsistent, _, hreply, hread 1 (by decide)⟩

end Session

end Columnar
