/-
Reading vectors: what each read answers.

Reads are safe in every sound session. In one that is coherent they all come
down to the data (`answer_of_materialize`), which is there or is brought by a
download that may fail; where it is there, a read answers what the column says
(`answer_isNull`, `answer_element`, `answer_text`, `answer_scalar`), and past
the last row it is refused without looking (`exec_past`).
-/
import Columnar.Proofs.Preserving
import Columnar.Session.Reading

namespace Columnar.Action

open Session

/-! ## Safe reads -/

section Safe

variable {C : Column → Prop} {B : Builder → Prop} {s : Session}

theorem safe_info (hs : s.Sound C B) (v : String) :
    Safe (Sound C B) (info v) s fun _ _ => True := by
  refine (safe_storage hs v).bind ?_
  intro _ s' hs' _ _
  exact .pure hs' trivial

/-- Reading something of the data, whatever it is. -/
theorem safe_read {α : Type} (hs : s.Sound C B) (v : String) (f : Payload → Outcome α) :
    Safe (Sound C B) (do (f (← materialize v)).act) s fun _ _ => True := by
  refine (safe_materialize hs v).bind ?_
  intro _ _ hs _ _
  exact (Safe.act hs).mono fun _ _ _ _ _ => trivial

theorem safe_isNull (hs : s.Sound C B) (v : String) (i : Nat) :
    Safe (Sound C B) (isNull v i) s fun _ _ => True := by
  refine (safe_shape hs v).bindSame ?_
  intro _ _
  refine (Safe.act hs).bindSame ?_
  intro _ _
  split
  · exact .pure hs trivial
  · exact safe_read hs v _

theorem safe_isNullExtended (hs : s.Sound C B) (v : String) (i : Nat) :
    Safe (Sound C B) (isNullExtended v i) s fun _ _ => True := by
  refine (safe_shape hs v).bindSame ?_
  intro _ _
  split
  · exact .pure hs trivial
  · refine (safe_materialize hs v).bind ?_
    intro p _ hs _ _
    split
    · exact .pure hs trivial
    · split
      · exact .pure hs trivial
      · exact (Safe.act hs).mono fun _ _ _ _ _ => trivial

theorem safe_validityBits (hs : s.Sound C B) (v : String) :
    Safe (Sound C B) (validityBits v) s fun _ _ => True := by
  refine (safe_shape hs v).bindSame ?_
  intro _ _
  split
  · exact .pure hs trivial
  · refine (safe_materialize hs v).bind ?_
    intro _ _ hs _ _
    exact .pure hs trivial

theorem safe_element (hs : s.Sound C B) (v : String) (f : Primitive) (i : Nat) :
    Safe (Sound C B) (element v f i) s fun _ _ => True := by
  refine (safe_shape hs v).bindSame ?_
  intro _ _
  refine (Safe.act hs).bindSame ?_
  intro _ _
  refine (Safe.act hs).bindSame ?_
  intro _ _
  exact safe_read hs v _

theorem safe_text (hs : s.Sound C B) (v : String) (i : Nat) :
    Safe (Sound C B) (text v i) s fun _ _ => True := by
  refine (safe_shape hs v).bindSame ?_
  intro _ _
  refine (Safe.act hs).bindSame ?_
  intro _ _
  exact safe_read hs v _

theorem safe_scalar (hs : s.Sound C B) (v : String) (i : Nat) :
    Safe (Sound C B) (scalar v i) s fun _ _ => True := by
  refine (safe_shape hs v).bindSame ?_
  intro _ _
  refine (Safe.act hs).bindSame ?_
  intro _ _
  exact safe_read hs v _

theorem safe_scanRows (hs : s.Sound C B) (v : String) (f : Primitive) (start count : Nat) :
    Safe (Sound C B) (scanRows v f start count) s fun _ _ => True := by
  induction count generalizing s start with
  | zero => exact .pure hs trivial
  | succ count ih =>
    refine (safe_isNull hs v start).bind ?_
    intro null s' hs' _ _
    have hrest (first : Option f.Carrier) (t : Session) (ht : t.Sound C B) : Safe (Sound C B)
        (do return first :: (← scanRows v f (start + 1) count)) t fun _ _ => True := by
      refine (ih ht (start + 1)).bind ?_
      intro _ _ ht _ _
      exact .pure ht trivial
    cases null with
    | true => exact hrest none s' hs'
    | false =>
      rw [if_neg (by decide), map_eq_pure_bind, bind_assoc]
      refine (safe_element hs' v f start).bind ?_
      intro e t ht _ _
      rw [pure_bind]
      exact hrest (some e) t ht

theorem safe_scan (hs : s.Sound C B) (v : String) (f : Primitive) (start count : Nat) :
    Safe (Sound C B) (scan v f start count) s fun _ _ => True := by
  refine (safe_shape hs v).bindSame ?_
  intro _ _
  refine (Safe.act hs).bindSame ?_
  intro _ _
  split
  · exact .throw hs
  · exact safe_scanRows hs v f start count

theorem safe_scalars (hs : s.Sound C B) (v : String) (start count : Nat) :
    Safe (Sound C B) (scalars v start count) s fun _ _ => True := by
  induction count generalizing s start with
  | zero => exact .pure hs trivial
  | succ count ih =>
    refine (safe_scalar hs v start).bind ?_
    intro _ _ hs _ _
    refine (ih hs (start + 1)).bind ?_
    intro _ _ hs _ _
    exact .pure hs trivial

theorem safe_view (hs : s.Sound C B) (v : String) : Safe (Sound C B) (view v) s fun _ _ => True := by
  refine (safe_shape hs v).bindSame ?_
  intro _ _
  refine (safe_materialize hs v).bind ?_
  intro _ _ hs _ _
  exact .pure hs trivial

end Safe

/-! ## What reads answer -/

section Answers

variable {s : Session} {v : String} {c : Column} {i : Nat}

theorem exec_storage {id : Nat} {st : Storage} (hid : s.vectors.find? v = some id)
    (hst : s.storages.find? id = some st) : (storage v).exec s = (.ok (id, st), s) := by
  have hfound : s.storage? v = some (id, st) := storage?_eq_some.mpr ⟨hid, hst⟩
  simp only [storage, exec_bind, exec_get, hfound, exec_named]

theorem exec_storage_none (h : s.storage? v = none) :
    (storage v).exec s = (.error (.noSuchObject v), s) := by
  simp only [storage, exec_bind, exec_get, h, exec_named]

theorem shown?_eq_some : s.shown? v = some c ↔
    ∃ id st, s.vectors.find? v = some id ∧ s.storages.find? id = some st ∧ s.columnOf st = c := by
  simp only [shown?, Option.bind_eq_bind, Option.bind_eq_some_iff, column?_eq_some]
  constructor
  · rintro ⟨id, hid, st, hst, hc⟩
    exact ⟨id, st, hid, hst, hc⟩
  · rintro ⟨id, st, hid, hst, hc⟩
    exact ⟨id, hid, st, hst, hc⟩

/-- The shape of a vector is known without its data. -/
theorem exec_shape (hs : s.Coherent) (hc : s.shown? v = some c) :
    (shape v).exec s = (.ok c.shape, s) := by
  obtain ⟨id, st, hid, hst, rfl⟩ := shown?_eq_some.mp hc
  simp only [shape, exec_bind, exec_storage hid hst, exec_pure, hs.shape_columnOf hst]

theorem exec_info (hs : s.Coherent) (hc : s.shown? v = some c) :
    ∃ told, (info v).exec s = (.ok told, s) ∧ told.shape = c.shape := by
  obtain ⟨id, st, hid, hst, rfl⟩ := shown?_eq_some.mp hc
  refine ⟨st.info, by simp only [info, exec_bind, exec_storage hid hst, exec_pure], ?_⟩
  exact (hs.shape_columnOf hst).symm

/-- The data is what the column holds, if it is brought. -/
theorem payload_of_materialize (hs : s.Coherent) (hc : s.shown? v = some c) {p : Payload}
    (hp : ((materialize v).exec s).1 = .ok p) : p = c.payload :=
  (safe_payload hs.sound hc).answer p hp

/-- Only a device can keep the data from being brought. -/
theorem error_of_materialize (hc : s.shown? v = some c) {stop : Stop}
    (hstop : ((materialize v).exec s).1 = .error stop) :
    ∃ e, stop = .fault (.refused (.device e)) := by
  obtain ⟨id, st, hid, hst, -⟩ := shown?_eq_some.mp hc
  simp only [materialize, exec_bind, exec_storage hid hst] at hstop
  split at hstop
  next => cases hstop
  next => cases hstop
  next d hplace =>
    simp only [fetch, exec_bind, exec_modify, exec_get] at hstop
    split at hstop
    next e _ =>
      obtain rfl := Except.error.inj hstop
      exact ⟨e, rfl⟩
    next => cases hstop

/-- **What needs the data** goes on with what the column holds, if the data is
brought, and else stops as the device lets it. -/
theorem exec_of_materialize {α : Type} (hs : s.Coherent) (hc : s.shown? v = some c)
    (g : Payload → Action α) :
    (materialize v >>= g).exec s =
      match (materialize v).exec s with
      | (.ok _, s') => (g c.payload).exec s'
      | (.error stop, s') => (.error stop, s') := by
  rw [exec_bind]
  rcases hx : (materialize v).exec s with ⟨stop | p, s'⟩
  · rfl
  · obtain rfl := payload_of_materialize hs hc (by rw [hx])
    rfl

/-- **What is read of the data** is what the column has, if the data is brought,
and else the device's error. -/
theorem answer_of_materialize {α : Type} (hs : s.Coherent) (hc : s.shown? v = some c)
    (g : Payload → Outcome α) :
    ((do (g (← materialize v)).act : Action α).exec s).1 =
      match ((materialize v).exec s).1 with
      | .ok _ => ((g c.payload).act.exec s).1
      | .error stop => .error stop := by
  rw [exec_of_materialize hs hc]
  rcases (materialize v).exec s with ⟨stop | p, s'⟩
  · rfl
  · simp only [exec_act]

/-- An index past the last row is refused without a look at the data. -/
theorem exec_past (hs : s.Coherent) (hc : s.shown? v = some c) (hi : c.rows ≤ i) :
    let refusal := Stop.fault (.refused (.indexOutOfRange i c.rows))
    (isNull v i).exec s = (.error refusal, s) ∧ (∀ f, (element v f i).exec s = (.error refusal, s)) ∧
      (text v i).exec s = (.error refusal, s) ∧ (scalar v i).exec s = (.error refusal, s) := by
  have hcheck := Column.checkIndex_of_le hi
  simp only [isNull, element, text, scalar, exec_bind, exec_shape hs hc, exec_act, hcheck, refuse,
    implies_true, and_self]

/-- Whether a row is null. -/
theorem answer_isNull (hs : s.Coherent) (hc : s.shown? v = some c) (hcovered : c.Covered)
    (hi : i < c.rows) :
    ((isNull v i).exec s).1 = .ok (c.nullFlags.getD i false) ∨
      ∃ stop, ((materialize v).exec s).1 = .error stop ∧ ((isNull v i).exec s).1 = .error stop := by
  have hcheck := Column.checkIndex_of_lt hi
  have hnull := Column.isNull_of_covered hcovered hi
  have hread := answer_of_materialize hs hc (·.isNull i)
  simp only [isNull, exec_bind, exec_shape hs hc, exec_act, hcheck]
  split
  next hbits =>
    have hnone : c.payload.validity = none := by simpa [Column.shape] using hbits
    rw [Payload.isNull, hnone] at hnull
    rw [← Except.ok.inj hnull]
    exact .inl rfl
  next =>
    rw [hread]
    cases hx : ((materialize v).exec s).1 with
    | ok p => exact .inl (by rw [hnull]; rfl)
    | error stop => exact .inr ⟨stop, rfl, rfl⟩

/-- The element of a row. -/
theorem answer_element (hs : s.Coherent) (hc : s.shown? v = some c) (hi : i < c.rows) {f : Primitive}
    (hf : c.kind.primitive? = some f) :
    ((element v f i).exec s).1 =
      match ((materialize v).exec s).1 with
      | .ok _ => ((c.payload.element f i).act.exec s).1
      | .error stop => .error stop := by
  have hcheck := Column.checkIndex_of_lt hi
  have hform : c.shape.checkForm f = .ok () := Outcome.check_eq_ok.mpr (Kind.storage_eq_kind.mpr hf)
  have hrest : (element v f i).exec s = (do ((← materialize v).element f i).act : Action f.Carrier).exec s := by
    simp only [element, exec_bind, exec_shape hs hc, exec_act, hcheck, hform]
  rw [hrest]
  exact answer_of_materialize hs hc (·.element f i)

/-- The string of a row. -/
theorem answer_text (hs : s.Coherent) (hc : s.shown? v = some c) (hi : i < c.rows) :
    ((text v i).exec s).1 =
      match ((materialize v).exec s).1 with
      | .ok _ => ((c.payload.text c.kind i).act.exec s).1
      | .error stop => .error stop := by
  have hcheck := Column.checkIndex_of_lt hi
  have hrest : (text v i).exec s = (do ((← materialize v).text c.kind i).act : Action String).exec s := by
    simp only [text, exec_bind, exec_shape hs hc, exec_act, hcheck]
    rfl
  rw [hrest]
  exact answer_of_materialize hs hc (·.text c.kind i)

/-- The scalar of a row. -/
theorem answer_scalar (hs : s.Coherent) (hc : s.shown? v = some c) (hi : i < c.rows) :
    ((scalar v i).exec s).1 =
      match ((materialize v).exec s).1 with
      | .ok _ => ((c.scalar i).act.exec s).1
      | .error stop => .error stop := by
  have hcheck := Column.checkIndex_of_lt hi
  have hrest : (scalar v i).exec s =
      (do ((c.shape.column (← materialize v)).scalar i).act : Action Scalar).exec s := by
    simp only [scalar, exec_bind, exec_shape hs hc, exec_act, hcheck]
  rw [hrest]
  exact answer_of_materialize hs hc fun p => (c.shape.column p).scalar i

end Answers

end Columnar.Action
