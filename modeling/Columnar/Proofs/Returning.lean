/-
Vectors that are exported and imported again.

What a vector shows of itself on the host is enough to make it again. Validity bytes that are brought
in are padded to what is allocated for the rows, and the bits past the last row are set
(`Bitmap.ofBytes`): the bits of the rows stay as they are given, and where the bytes are as many as are
allocated, and padded already, nothing changes (`Bitmap.ofBytes_bytes`). All vectors have their bits so,
however many rows these were allocated for. Nulls are counted anew, and the count was right; the data
has the size of the rows. So what is shown of a column makes that column (`Column.WellFormed.ofParts_view`),
and no read can tell the new vector from the exported one (`Session.import_of_export`).
-/
import Columnar.Proofs.Admitting
import Columnar.Proofs.Allocations
import Columnar.Proofs.Allotting
import Columnar.Proofs.Leading
import Columnar.Proofs.Scanning

namespace Columnar

/-! ## Validity bits -/

namespace Bitmap

variable {b : Bitmap} {bytes : Bytes} {n i : Nat}

/-- **The bits of the rows** stay as they are given. -/
theorem isSet_ofBytes (hcovers : n ≤ 8 * bytes.length) (hi : i < n) :
    (ofBytes bytes n).isSet i = (⟨bytes⟩ : Bitmap).isSet i := by
  have hbyte : i / 8 < bytes.length := by omega
  have hrow : ¬ n ≤ i := Nat.not_le_of_lt hi
  rw [ofBytes, isSet_fill, if_neg fun h => hrow h.1]
  simp only [isSet_eq, enlarged, List.getD_eq_getElem?_getD, List.getElem?_append_left hbyte]

/-- **Bits that are allotted and padded** stay altogether. -/
theorem ofBytes_bytes (hallotted : allocationSize n ≤ b.bytes.length) (hfresh : b.FreshFrom n) :
    ofBytes b.bytes n = b := by
  have hgiven : enlarged b.bytes n = b := by
    rw [enlarged, Nat.sub_eq_zero_of_le hallotted, List.replicate_zero, List.append_nil]
  refine eq_of_isSet ?_ fun i _ => ?_
  · rw [length_ofBytes, Nat.max_eq_right hallotted]
  · simp only [ofBytes, hgiven, isSet_fill]
    split
    next hpast => exact (hfresh i hpast.1 hpast.2.2).symm
    next => rfl

end Bitmap

/-! ## Columns -/

namespace View

/-- That memory has room for the data. -/
def InMemory (x : View) : Prop := x.data.length < 2 ^ addressBits

/-- Making a vector of what is shown of another. -/
def making (x : View) : Making := .ofParts x.kind x.rows x.data x.validity

end View

namespace Column

variable {c : Column} {f : Primitive} {k : Kind} {n : Nat} {data bytes : Bytes}

/-- The data of a column of fixed width. -/
theorem elements_eq_view (hf : c.kind.primitive? = some f) (hsuits : c.payload.elements.Suits c.kind) :
    c.payload.elements = .fixed c.view.data := by
  obtain ⟨bytes, hbytes⟩ := Elements.eq_fixed_of_suits hf hsuits
  rw [view, hbytes]
  rfl

/-- Memory has room for the data of a column in memory. -/
theorem InMemory.view (hmemory : c.InMemory) (hf : c.kind.primitive? = some f)
    (hsuits : c.payload.elements.Suits c.kind) : c.view.InMemory :=
  hmemory _ (by simp [Payload.buffers, elements_eq_view hf hsuits, Elements.data])

/-- **What is shown of a column makes it again.** -/
theorem WellFormed.ofParts_view (hwell : c.WellFormed) (hf : c.kind.primitive? = some f)
    (hpadded : c.Padded) {odd : Nat → Prop} (hallotted : c.Allotted odd) (hmemory : c.view.InMemory) :
    ofParts c.view.kind c.view.rows c.view.data c.view.validity = .ok c := by
  obtain ⟨rows, hrows⟩ := hwell.holds
  have hdata := elements_eq_view hf hrows.suits
  have hlen : c.view.data.length = c.rows * f.width := hrows.length_data hf hdata
  have hbits : c.view.validity.map (Bitmap.ofBytes · c.view.rows) = c.payload.validity := by
    rw [Column.view, Option.map_map]
    cases hb : c.payload.validity with
    | none => rfl
    | some b => exact congrArg some (Bitmap.ofBytes_bytes (hallotted b hb).2.1 (hpadded b hb))
  have hnulls : c.nulls = c.payload.validity.elim 0 fun b => b.countClear c.rows := by
    rw [hwell.counted.nulls, nullFlags]
    cases hb : c.payload.validity with
    | none => exact Bitmap.count_nullFlags_none c.rows
    | some b => exact (b.countClear_eq_count (hwell.counted.covered b hb)).symm
  have hindexed : Indexed f.width c.view.rows c.view.validity := by
    rw [View.InMemory, hlen] at hmemory
    refine ⟨Nat.lt_trans hmemory (by decide), fun bytes hbytes => ?_⟩
    have hpadding : some (Bitmap.ofBytes bytes c.view.rows) = c.payload.validity := by
      rw [← hbits, hbytes, Option.map_some]
    exact (hallotted _ hpadding.symm).1
  refine ofParts_eq_ok_iff.mpr ⟨f, hf, hindexed, hlen, fun bytes hbytes => ?_, ?_⟩
  · obtain ⟨b, hb, rfl⟩ := Option.map_eq_some_iff.mp hbytes
    exact hwell.counted.covered b hb
  · rw [hbits]
    show c = ofBits c.kind c.rows c.view.data c.payload.validity
    rw [ofBits, ← hnulls, ← hdata]

/-- **Whether a row is null** is what the given bits say. -/
theorem isNull_of_ofParts (h : ofParts k n data (some bytes) = .ok c) {i : Nat} (hi : i < n) :
    c.payload.isNull i = .ok (!(⟨bytes⟩ : Bitmap).isSet i) := by
  obtain ⟨f, -, -, -, hcovers, rfl⟩ := ofParts_eq_ok_iff.mp h
  have hcovers := hcovers bytes rfl
  have hcapacity : i < (Bitmap.ofBytes bytes n).capacity :=
    Nat.lt_of_lt_of_le hi (Bitmap.le_capacity_ofBytes hcovers)
  simp only [Payload.isNull, ofBits, Option.map_some, Bitmap.isSet?, if_pos hcapacity,
    Bitmap.isSet_ofBytes hcovers hi]
  rfl

end Column

/-! ## Reads -/

/-- The reads of what a vector holds, whatever its name is. -/
inductive Command.Reads : (String → Command) → Prop where
  | isNull (i : Nat) : Reads (.isNull · i)
  | isNullExtended (i : Nat) : Reads (.isNullExtended · i)
  | validityBits : Reads .validityBits
  | element (f : Primitive) (i : Nat) : Reads (.element · f i)
  | text (i : Nat) : Reads (.text · i)
  | scalar (i : Nat) : Reads (.scalar · i)
  | scan (f : Primitive) (start count : Nat) : Reads (.scan · f start count)
  | view : Reads .view

namespace Session

open Columnar.Action

/-- That a vector has the shape and the content of a column, and both are told without any change. -/
structure Offhand (s : Session) (v : String) (c : Column) : Prop where
  shape : (shape v).exec s = (.ok c.shape, s)
  payload : (materialize v).exec s = (.ok c.payload, s)

variable {s t : Session} {v w : String} {c : Column}

theorem offhand_of_storage {id : Nat} (h : s.storage? v = some (id, ⟨c.shape, .host c.payload, 1⟩)) :
    s.Offhand v c := by
  obtain ⟨hid, hst⟩ := storage?_eq_some.mp h
  refine ⟨?_, exec_materialize_host h (.inl rfl)⟩
  simp only [Action.shape, exec_bind, exec_storage hid hst, exec_pure]

namespace Offhand

/-- Vectors with one column are counterparts, whatever the sessions and their names. -/
theorem counterparts (hv : s.Offhand v c) (hw : t.Offhand w c) :
    Counterparts (fun s' t' => s' = s ∧ t' = t) v w where
  shape := by
    rintro _ _ ⟨rfl, rfl⟩
    exact .answers hv.shape hw.shape ⟨rfl, rfl⟩ rfl
  materialize := by
    rintro _ _ ⟨rfl, rfl⟩
    exact .answers hv.payload hw.payload ⟨rfl, rfl⟩ rfl

/-- **No read tells them apart**, and none changes anything. -/
theorem step_reads (hv : s.Offhand v c) (hw : t.Offhand w c) {read : String → Command}
    (hread : Command.Reads read) :
    ∃ reply, s.step (read v) = (reply, s) ∧ t.step (read w) = (reply, t) := by
  have hR := hv.counterparts hw
  have hstep {α : Type} {x y : Action α} {a b : Command} (f : α → Reply)
      (hx : Agree (fun s' t' => s' = s ∧ t' = t) x y s t fun a b _ _ => a = b)
      (ha : reply a = x >>= fun answer => pure (f answer))
      (hb : reply b = y >>= fun answer => pure (f answer)) :
      ∃ reply, s.step a = (reply, s) ∧ t.step b = (reply, t) := by
    cases hx with
    | @answers p _ _ _ hx hy hsame hanswer =>
      obtain ⟨rfl, rfl⟩ := hsame
      subst hanswer
      exact ⟨f p, by rw [step_eq_exec, ha, exec_bind_ok hx, exec_pure],
        by rw [step_eq_exec, hb, exec_bind_ok hy, exec_pure]⟩
    | @stops stop _ _ hx hy hsame =>
      obtain ⟨rfl, rfl⟩ := hsame
      exact ⟨.stopped stop, by rw [step_eq_exec, ha, exec_bind_error hx],
        by rw [step_eq_exec, hb, exec_bind_error hy]⟩
  cases hread with
  | isNull i => exact hstep .flag (hR.isNull ⟨rfl, rfl⟩ i) rfl rfl
  | isNullExtended i => exact hstep .flag (hR.isNullExtended ⟨rfl, rfl⟩ i) rfl rfl
  | validityBits => exact hstep .count (hR.validityBits ⟨rfl, rfl⟩) rfl rfl
  | element f i => exact hstep (.element f) (hR.element ⟨rfl, rfl⟩ f i) rfl rfl
  | text i => exact hstep .text (hR.text ⟨rfl, rfl⟩ i) rfl rfl
  | scalar i => exact hstep .scalar (hR.scalar ⟨rfl, rfl⟩ i) rfl rfl
  | scan f start count => exact hstep (.elements f) (hR.scan ⟨rfl, rfl⟩ f start count) rfl rfl
  | view => exact hstep .view (hR.view ⟨rfl, rfl⟩) rfl rfl

/-- Whether a row is null is read of its bit. -/
theorem step_isNull (h : s.Offhand v c) (hbits : c.payload.validity.isSome) {i : Nat} (hi : i < c.rows)
    {null : Bool} (hnull : c.payload.isNull i = .ok null) : s.step (.isNull v i) = (.flag null, s) := by
  have hshape : c.shape.hasValidity = true := hbits
  simp only [step_eq_exec, reply, Action.isNull, exec_bind, h.shape, exec_act, Column.checkIndex_of_lt hi,
    hshape, h.payload, hnull, Bool.not_true, Bool.false_eq_true, if_false, exec_pure]

end Offhand

/-- **Showing a vector** tells what its column shows, and from then on its data is on the host; only a
device can keep it from that. -/
theorem step_view (hs : s.Coherent) (hc : s.shown? v = some c) :
    (∃ e t, s.step (.view v) = (.stopped (.fault (.refused (.device e))), t)) ∨
      ∃ t, s.step (.view v) = (.view c.view, t) ∧ t.Coherent ∧ t.shown? v = some c ∧ t.Offhand v c := by
  have hsafe := safe_materialize hs.sound v
  have hview := exec_of_materialize hs hc fun p => pure (c.shape.column p).view
  have hrest : (Action.view v).exec s =
      (materialize v >>= fun p => pure (c.shape.column p).view : Action View).exec s := by
    simp only [Action.view, exec_bind, exec_shape hs hc]
  rcases hx : (materialize v).exec s with ⟨stop | p, t⟩
  · obtain ⟨e, rfl⟩ := error_of_materialize hc (by rw [hx])
    refine .inl ⟨e, t, ?_⟩
    rw [hx] at hview
    simp only [step_eq_exec, reply, exec_bind, hrest, hview]
  · have hp := payload_of_materialize hs hc (by rw [hx])
    have hlater := hsafe.later
    have hsound := hsafe.keeps
    rw [hx] at hview hlater hsound
    have hshown := hlater.shown? hc
    refine .inr ⟨t, ?_, hsound.coherent, hshown, exec_shape hsound.coherent hshown, ?_⟩
    · simp only [step_eq_exec, reply, exec_bind, hrest, hview, exec_pure]
      rfl
    · exact hp ▸ exec_materialize_again hx

/-! ## Raw parts -/

variable {k : Kind} {n : Nat} {data : Bytes} {validity : Option Bytes}

/-- **A vector of raw parts** has their column, and all of it is at hand. -/
theorem Arising.step_ofParts (hs : s.Arising) (hc : Column.ofParts k n data validity = .ok c) (w : String) :
    let made := s.step (.make (.ofParts k n data validity) w)
    made.1 = .vector ⟨c.shape, .host, 1⟩ ∧ made.2.Displays w c ∧ made.2.Offhand w c := by
  have hstored := hs.storage?_ofParts hc w
  refine ⟨?_, displays_of_storage hstored, offhand_of_storage hstored⟩
  rw [step_make_ofParts hc]
  rfl

/-- **The bits that are given** tell which rows of the vector are null. -/
theorem Arising.step_isNull_ofParts (hs : s.Arising) {bytes : Bytes} {told : VectorInfo}
    (hmade : s.step (.make (.ofParts k n data (some bytes)) w) = (.vector told, t)) {i : Nat} (hi : i < n) :
    t.step (.isNull w i) = (.flag (!(⟨bytes⟩ : Bitmap).isSet i), t) := by
  cases hc : Column.ofParts k n data (some bytes) with
  | error fault =>
    rw [step_make_ofParts_error hc] at hmade
    cases hmade
  | ok c =>
    obtain ⟨-, -, hoffhand⟩ := hs.step_ofParts hc w
    rw [hmade] at hoffhand
    have hisNull := Column.isNull_of_ofParts hc hi
    obtain ⟨f, -, -, -, -, rfl⟩ := Column.ofParts_eq_ok_iff.mp hc
    exact hoffhand.step_isNull rfl hi hisNull

/-! ## Every reachable session -/

/-- What is shown of any vector makes its column again: all vectors count their nulls right, and have
their bits allotted and padded. -/
theorem Reachable.ofParts_view (hs : s.Reachable .unlimited) (hc : s.shown? v = some c) {f : Primitive}
    (hf : c.kind.primitive? = some f) (hmemory : c.view.InMemory) :
    Column.ofParts c.view.kind c.view.rows c.view.data c.view.validity = .ok c := by
  obtain ⟨hwell, hpadded⟩ := (hs.sound invariant_padded).shown hc
  have hallotted : c.Allotted fun _ => True :=
    ((hs.sound (invariant_allotted fun _ _ => trivial)).shown hc).2
  exact hwell.ofParts_view hf hpadded hallotted hmemory

/-- **A vector comes back as it was.** In every session that commands lead to, whatever has made the
vector and however many rows its bits were allocated for: unless a device fails, what is shown of it
makes a vector of the same column under any name, with the same view, rows and nulls, and every read of
that answers as the read of the vector that was shown. Memory is only to have room for what is shown, as
it has for columns in memory. Of raw parts that are taken, a row is null just if its bit is
clear in the bytes that came with them, whatever stands past the last row. -/
theorem import_of_export (hs : s.Reachable .unlimited) :
    (∀ v c, s.shown? v = some c → c.kind.width?.isSome →
      (c.InMemory → c.view.InMemory) ∧
      (c.view.InMemory →
        (∃ e t, s.step (.view v) = (.stopped (.fault (.refused (.device e))), t)) ∨
        ∃ t, s.step (.view v) = (.view c.view, t) ∧
          (∃ told, t.step (.info v) = (.vector told, t) ∧ told.shape = c.shape) ∧
          ∀ w, let u := (t.step (.make c.view.making w)).2
            t.step (.make c.view.making w) = (.vector ⟨c.shape, .host, 1⟩, u) ∧ u.Displays w c ∧
            ∀ read, Command.Reads read →
              ∃ reply, t.step (read v) = (reply, t) ∧ u.step (read w) = (reply, u))) ∧
    ∀ k n data bytes w told u, s.step (.make (.ofParts k n data (some bytes)) w) = (.vector told, u) →
      ∀ i < n, u.step (.isNull w i) = (.flag (!(⟨bytes⟩ : Bitmap).isSet i), u) := by
  refine ⟨fun v c hc hfixed => ?_, fun k n data bytes w told u hmade i hi =>
    hs.arising.step_isNull_ofParts hmade hi⟩
  obtain ⟨width, hwidth⟩ := Option.isSome_iff_exists.mp hfixed
  obtain ⟨f, hf, -⟩ := Option.map_eq_some_iff.mp hwidth
  have hsuits : c.payload.elements.Suits c.kind := ((hs.sound invariant_wellFormed).shown hc).counted.suits
  refine ⟨fun hmemory => hmemory.view hf hsuits, fun hmemory => ?_⟩
  refine (step_view (hs.sound invariant_padded).coherent hc).imp id ?_
  rintro ⟨t, ht, hcoherent, hshown, hoffhand⟩
  have harising : t.Arising := by
    have hstep := hs.arising.step (.view v)
    rwa [ht] at hstep
  obtain ⟨told, htold, hshape⟩ := exec_info hcoherent hshown
  refine ⟨t, ht, ⟨told, by simp only [step_eq_exec, reply, exec_bind, htold, exec_pure], hshape⟩,
    fun w => ?_⟩
  obtain ⟨hreply, hdisplays, hback⟩ := harising.step_ofParts (hs.ofParts_view hc hf hmemory) w
  exact ⟨Prod.ext hreply rfl, hdisplays, fun read hread => hoffhand.step_reads hback hread⟩

set_option maxRecDepth 4000 in
/-- Two rows of a builder with room for six hundred, and their bits; and two truth values with clear bits
past the last row. -/
theorem import_of_roomy_builder :
    let s := (Session.run { config := none } [.newBuilder "b" (.int .w16) 600 true,
      .append "b" (.rows (.options (.int .w16) [some (1 : BitVec 16), none])), .build "b" .host "v"]).2
    let c : Column := ⟨.int .w16, 2, 1, ⟨.fixed [1, 0, 0, 0], some ⟨0xFD :: List.replicate 127 0xFF⟩⟩⟩
    let u := (s.step (.make c.view.making "w")).2
    let parts := (s.step (.make (.ofParts .bool 2 [1, 0] (some [0x01])) "p")).2
    s.Reachable .unlimited ∧ s.shown? "v" = some c ∧ c.view.InMemory ∧ u.Displays "w" c ∧
      (∃ reply, s.step (.scalar "v" 1) = (reply, s) ∧ u.step (.scalar "w" 1) = (reply, u)) ∧
      parts.step (.isNull "p" 0) = (.flag false, parts) ∧ parts.step (.isNull "p" 1) = (.flag true, parts) := by
  intro s c u parts
  have hs : s.Reachable .unlimited := by
    refine (Session.Reachable.start none).run ?_
    simp [Command.Within]
  have hc : s.shown? "v" = some c := by decide +kernel
  have hmemory : c.view.InMemory := by
    unfold View.InMemory
    decide
  have hview : s.step (.view "v") = (.view c.view, s) := rfl
  obtain ⟨hreturns, hgiven⟩ := import_of_export hs
  have hmade : s.step (.make (.ofParts .bool 2 [1, 0] (some [0x01])) "p") = (.vector _, parts) := rfl
  obtain ⟨e, t, ht⟩ | ⟨t, ht, -, hback⟩ := (hreturns "v" c hc rfl).2 hmemory
  · rw [hview] at ht
    cases ht
  · obtain rfl : s = t := congrArg Prod.snd (hview.symm.trans ht)
    obtain ⟨-, hdisplays, hreads⟩ := hback "w"
    exact ⟨hs, hc, hmemory, hdisplays, hreads _ (.scalar 1), hgiven _ _ _ _ _ _ _ hmade 0 (by decide),
      hgiven _ _ _ _ _ _ _ hmade 1 (by decide)⟩

end Session

end Columnar
