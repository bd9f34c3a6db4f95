/-
What scripts yield, refusals included.

There is a function on columns for every way to make a vector of others. Where it answers with a
column, `Making.Gives` tells that the vector can be made; `Making.ComesTo` also tells what comes of
its refusals. So a script that makes vectors under free names yields what functions on columns say
(`Session.Yields`), unless a device fails: the last vector, or the fault of the first making that is
refused. Whether two scripts yield the same is then a question about two functions on columns.
-/
import Columnar.Proofs.Evaluating

namespace Columnar

open Columnar.Action

/-- That making a vector comes to the outcome of a function on columns, unless a device fails. -/
def Making.ComesTo (m : Making) (s : Session) : Outcome Column → Prop
  | .ok c => m.Gives c s
  | .error fault => ∃ stop, ((make m).exec s).1 = .error stop ∧
      (stop = .fault fault ∨ ∃ e, stop = .fault (.refused (.device e)))

/-- That a script leaves an outcome under a name, as long as no reply tells the error of a device: a
vector on the host with the content of a column, or else a name that is free, and the fault among the
replies. -/
def Session.Yields (s : Session) (script : List Command) (w : String) (outcome : Outcome Column) :
    Prop :=
  Undisturbed (s.run script).1 →
    match outcome with
    | .ok c => (s.run script).2.Displays w c
    | .error fault =>
      .stopped (.fault fault) ∈ (s.run script).1 ∧ (s.run script).2.vectors.find? w = none

/-! ## Makings -/

namespace Action

open Session

variable {s s₁ s₂ : Session} {v l r : String} {a b c : Column} {k out : Kind} {op : Operation}

/-- **A cast of a vector** comes to that of its column, if there is room for it. -/
theorem comesTo_cast (hs : s.Reachable .unlimited) (hc : s.shown? v = some c)
    (hroom : c.kind = k ∨ Elements.reserved k c.rows ≤ maxSize) :
    (Making.cast v k).ComesTo s (c.cast k) := by
  have hsound := hs.sound invariant_wellFormed
  cases hrule : c.kind.castRule? k with
  | none =>
    have hcast : c.cast k = refuse (.unsupportedCast c.kind k) := by
      simp only [Column.cast, Kind.requireCast, hrule]
      rfl
    rw [hcast]
    refine ⟨_, ?_, .inl rfl⟩
    rw [make, exec_cast_unsupported hsound.coherent hc hrule]
  | some rule =>
    obtain ⟨d, hd⟩ := Column.cast_ok (hsound.shown hc).counted.suits hrule
    rw [hd]
    exact gives_cast hs hc hrule hd hroom

/-- **An operation on vectors** comes to that on their columns. -/
theorem comesTo_operate (hs : s.Coherent) (ha : s.shown? l = some a) (hb : s.shown? r = some b) :
    (Making.operate op out l r).ComesTo s (Column.operate op out a b) := by
  cases hchecks : op.requireColumns out a.shape b.shape with
  | error fault =>
    have hrefused : Column.operate op out a b = .error fault := by
      simp only [Column.operate, hchecks, Bind.bind, Except.bind]
    rw [hrefused]
    refine ⟨_, ?_, .inl rfl⟩
    simp only [make, operate, exec_bind, exec_shape hs ha, exec_shape hs hb, exec_act, hchecks]
  | ok _ =>
    cases hc : Column.operate op out a b with
    | ok c => exact gives_operate hs.sound ha hb hchecks hc
    | error fault =>
      obtain ⟨-, hlater, -⟩ := safe_materialize hs.sound r
      rcases hr : (materialize r).exec s with ⟨stop | p, s₁⟩
      · refine ⟨stop, ?_, .inr (error_of_materialize hb (by rw [hr]))⟩
        rw [make, exec_operate_of_error hs ha hb hchecks hr]
      rw [hr] at hlater
      rcases hl : (materialize l).exec s₁ with ⟨stop | q, s₂⟩
      · refine ⟨stop, ?_, .inr (error_of_materialize (hlater.shown? ha) (by rw [hl]))⟩
        rw [make, exec_operate_of_error_left hs ha hb hchecks hr hl]
      · exact ⟨_, (exec_operate hs.sound ha hb hchecks hr hl).2 fault hc, .inl rfl⟩

/-- **An operation on a vector and a scalar** comes to that on its column. -/
theorem comesTo_operateScalar (hs : s.Coherent) (ha : s.shown? l = some a) (x : Scalar) :
    (Making.operateScalar op out l x).ComesTo s (Column.operateScalar op out a x) := by
  have hcolumn : a.shape.column a.payload = a := rfl
  cases hchecks : op.requireScalar out a.shape x with
  | error fault =>
    have hrefused : Column.operateScalar op out a x = .error fault := by
      simp only [Column.operateScalar, hchecks, Bind.bind, Except.bind]
    rw [hrefused]
    refine ⟨_, ?_, .inl rfl⟩
    simp only [make, operateScalar, exec_bind, exec_shape hs ha, exec_act, hchecks]
  | ok _ =>
    rcases hl : (materialize l).exec s with ⟨stop | p, s₁⟩
    · obtain ⟨e, rfl⟩ := error_of_materialize ha (by rw [hl])
      have hstop : (make (.operateScalar op out l x)).exec s =
          (.error (.fault (.refused (.device e))), s₁) := by
        simp only [make, operateScalar, exec_bind, exec_shape hs ha, exec_act, hchecks, hl]
      cases Column.operateScalar op out a x with
      | ok c => exact .inr ⟨e, s₁, hstop⟩
      | error fault => exact ⟨_, by rw [hstop], .inr ⟨e, rfl⟩⟩
    · obtain rfl := payload_of_materialize hs ha (by rw [hl])
      cases hc : Column.operateScalar op out a x with
      | ok c =>
        refine .inl ?_
        simp only [make, operateScalar, exec_bind, exec_shape hs ha, exec_act, hchecks, hl, exec_modify,
          hcolumn, hc]
        exact ⟨_, _, rfl, Table.find?_insert_self _ _ _⟩
      | error fault =>
        refine ⟨_, ?_, .inl rfl⟩
        simp only [make, operateScalar, exec_bind, exec_shape hs ha, exec_act, hchecks, hl, exec_modify,
          hcolumn, hc]

end Action

/-! ## Scripts -/

namespace Session

variable {s : Session} {m : Making} {outcome : Outcome Column} {u w : String} {k : Kind}

/-- What a script yields is there after it. -/
theorem Yields.displays {script : List Command} {c : Column} (h : s.Yields script w outcome)
    (hc : outcome = .ok c) (hreplies : Undisturbed (s.run script).1) :
    (s.run script).2.Displays w c := by
  subst hc
  exact h hreplies

/-- Where one script leads, another goes on. -/
theorem Leads.yields {script rest : List Command} (h : s.Leads script fun t => t.Yields rest w outcome) :
    s.Yields (script ++ rest) w outcome := by
  induction script generalizing s with
  | nil => exact h
  | cons c script ih =>
    intro hreplies
    obtain ⟨hne, hscript⟩ := h hreplies.head
    rw [List.cons_append, run_cons_of_ne hne] at hreplies ⊢
    have hrest := ih hscript fun reply hreply => hreplies reply (by simp [hreply])
    cases outcome with
    | ok c => exact hrest
    | error fault => exact ⟨List.mem_cons_of_mem _ hrest.1, hrest.2⟩

/-- A making that is refused leaves all names as they are. -/
theorem step_make_of_error (hs : s.Reachable .unlimited) {stop : Stop}
    (h : ((make m).exec s).1 = .error stop) (x : String) :
    ∃ t, s.step (.make m x) = (.stopped stop, t) ∧ t.Reachable .unlimited ∧ t.vectors = s.vectors := by
  have hwithin := within_unlimited m x
  have hlater := (safe_make invariant_wellFormed (hs.sound invariant_wellFormed) hwithin).later
  have ht := hs.step hwithin
  rcases hexec : (make m).exec s with ⟨result, t⟩
  rw [hexec] at h hlater
  obtain rfl : result = .error stop := h
  have hstep : s.step (.make m x) = (.stopped stop, t) := by
    simp only [step_eq_exec, reply, exec_bind, hexec]
  rw [hstep] at ht
  exact ⟨t, hstep, ht, hlater.vectors⟩

theorem run_singleton (s : Session) (c : Command) : s.run [c] = ([(s.step c).1], (s.step c).2) := by
  by_cases hfault : (s.step c).1 = .stopped (.fault .outOfBounds)
  · rw [run_cons_of_fault hfault, hfault]
  · rw [run_cons_of_ne hfault]
    rfl

/-- What is refused for itself stops a script with its fault. -/
theorem step_of_comesTo (hs : s.Reachable .unlimited) {fault : Fault} (hm : m.ComesTo s (.error fault))
    {x : String} {rest : List Command} (hreplies : Undisturbed (s.run (.make m x :: rest)).1) :
    ∃ t, s.step (.make m x) = (.stopped (.fault fault), t) ∧ t.Reachable .unlimited ∧
      t.vectors = s.vectors := by
  obtain ⟨stop, hstop, rfl | ⟨e, rfl⟩⟩ := hm
  · exact step_make_of_error hs hstop x
  · obtain ⟨t, hstep, -⟩ := step_make_of_error hs hstop x
    have hhead := hreplies.head e
    rw [hstep] at hhead
    exact absurd rfl hhead

/-- **A script of one making** yields what it comes to. -/
theorem yields_make (hs : s.Reachable .unlimited) (hm : m.ComesTo s outcome)
    (hw : s.vectors.find? w = none) : s.Yields [.make m w] w outcome := by
  cases outcome with
  | ok c => exact ((leads_make hs hm hw).mono fun _ h => h.2).run
  | error fault =>
    intro hreplies
    obtain ⟨t, hstep, -, hvectors⟩ := step_of_comesTo hs hm hreplies
    rw [run_singleton, hstep]
    exact ⟨List.mem_singleton_self _, hvectors ▸ hw⟩

/-- **A cast of what was made** yields the cast of what that comes to. -/
theorem yields_make_cast (hs : s.Reachable .unlimited) (hm : m.ComesTo s outcome)
    (hu : s.vectors.find? u = none) (hw : s.vectors.find? w = none) (hne : u ≠ w)
    (hroom : ∀ d, outcome = .ok d → d.kind = k ∨ Elements.reserved k d.rows ≤ maxSize) :
    s.Yields [.make m u, .make (.cast u k) w] w (outcome >>= (·.cast k)) := by
  cases outcome with
  | ok d =>
    have hmade : s.Leads [.make m u] fun t => t.Yields [.make (.cast u k) w] w (d.cast k) := by
      refine (leads_make hs hm hu).mono fun t ht => ?_
      obtain ⟨hnames, hdisplays⟩ := ht
      exact yields_make hnames.reachable (comesTo_cast hnames.reachable hdisplays.shown (hroom d rfl))
        (hnames.free w (by simpa using hne.symm) hw)
    exact hmade.yields
  | error fault =>
    intro hreplies
    obtain ⟨t, hstep, ht, hvectors⟩ := step_of_comesTo hs hm hreplies
    by_cases hfault : fault = .outOfBounds
    · subst hfault
      rw [run_cons_of_fault (by rw [hstep]), hstep]
      exact ⟨List.mem_singleton_self _, hvectors ▸ hw⟩
    · -- The script goes on, but there is no vector to cast.
      have hmissing : t.storage? u = none := by simp [storage?, hvectors, hu]
      have hstop : ((make (.cast u k)).exec t).1 = .error (.noSuchObject u) := by
        simp only [make, Action.cast, Action.shape, exec_bind, exec_storage_none hmissing]
      obtain ⟨t', hstep', -, hvectors'⟩ := step_make_of_error ht hstop w
      rw [run_cons_of_ne (by simpa [hstep] using hfault), hstep, run_singleton, hstep']
      exact ⟨List.mem_cons_self, by rw [hvectors', hvectors, hw]⟩

end Session

end Columnar
