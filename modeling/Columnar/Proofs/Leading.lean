/-
What scripts come to unless a device fails.

Data that lies on a device may not be brought when it is needed, and then a command is
refused with the device's error. A script is `Undisturbed` if that does not happen.
`Session.Leads` tells what such a script comes to, command by command, so that it can be
told of one script after another (`Leads.append`); it holds of the whole run (`Leads.run`).
Vectors that get free names leave all others as they are, and so whatever is made of vectors
can be made of them one by one (`leads_makeAll`), or be put in a builder (`leads_appendAll`).
-/
import Columnar.Proofs.Casting
import Columnar.Proofs.Fetching
import Columnar.Proofs.Refusals

namespace Columnar

open Columnar.Action

namespace Session

/-- That none of the replies tells the error of a device. -/
def Undisturbed (replies : List Reply) : Prop :=
  ∀ reply ∈ replies, ∀ e, reply.error? ≠ some (.device e)

/-- That a script is carried out to its end, as long as no reply tells the error of a device,
and that `P` holds of the session that it leads to. -/
def Leads (s : Session) : List Command → (Session → Prop) → Prop
  | [], P => P s
  | c :: rest, P => (∀ e, (s.step c).1.error? ≠ some (.device e)) →
    (s.step c).1 ≠ .stopped (.fault .outOfBounds) ∧ (s.step c).2.Leads rest P

variable {s t u : Session} {P Q : Session → Prop} {script rest : List Command}

theorem Undisturbed.head {c : Command} (h : Undisturbed (s.run (c :: rest)).1) (e : DeviceError) :
    (s.step c).1.error? ≠ some (.device e) := by
  by_cases hfault : (s.step c).1 = .stopped (.fault .outOfBounds)
  · rw [hfault]
    exact fun he => by cases he
  · rw [run_cons_of_ne hfault] at h
    exact h _ (by simp) e

namespace Leads

theorem mono (h : s.Leads script P) (hPQ : ∀ t, P t → Q t) : s.Leads script Q := by
  induction script generalizing s with
  | nil => exact hPQ s h
  | cons c rest ih => exact fun hreply => ⟨(h hreply).1, ih (h hreply).2⟩

/-- One script after another. -/
theorem append (h : s.Leads script P) (hrest : ∀ t, P t → t.Leads rest Q) :
    s.Leads (script ++ rest) Q := by
  induction script generalizing s with
  | nil => exact hrest s h
  | cons c script ih => exact fun hreply => ⟨(h hreply).1, ih (h hreply).2⟩

/-- **The run of an undisturbed script** leads where its commands lead. -/
theorem run (h : s.Leads script P) (hreplies : Undisturbed (s.run script).1) : P (s.run script).2 := by
  induction script generalizing s with
  | nil => exact h
  | cons c rest ih =>
    obtain ⟨hne, hrest⟩ := h hreplies.head
    rw [run_cons_of_ne hne] at hreplies ⊢
    exact ih hrest fun reply hreply => hreplies reply (by simp [hreply])

end Leads

theorem undisturbed_of_all {replies : List Reply} (h : replies.all fun reply => reply.error?.isNone) :
    Undisturbed replies := by
  intro reply hreply e he
  have := List.all_eq_true.mp h reply hreply
  rw [he] at this
  cases this

/-! ## What stays -/

/-- That a session is led to by commands, and shows all that another shows. -/
structure Retains (s t : Session) : Prop where
  reachable : t.Reachable .unlimited
  shown : ∀ v c, s.shown? v = some c → t.shown? v = some c

/-- That names which another session does not have show these columns, and that no more names
are taken. -/
structure Names (s : Session) (xs : List String) (cs : List Column) (t : Session) : Prop
    extends Retains s t where
  named : xs.map t.shown? = cs.map some
  free : ∀ y, y ∉ xs → s.vectors.find? y = none → t.vectors.find? y = none

/-- That a builder is under a name, and that all vectors have their names still. -/
structure Fills (s : Session) (name : String) (b : Builder) (t : Session) : Prop
    extends Retains s t where
  vectors : t.vectors = s.vectors
  builder : t.builders.find? name = some b

/-- That a vector lies on the host with the content of a column: what it is like and what is in
it is told without any change. -/
structure Displays (s : Session) (x : String) (c : Column) : Prop where
  shown : s.shown? x = some c
  info : s.step (.info x) = (.vector ⟨c.shape, .host, 1⟩, s)
  view : s.step (.view x) = (.view c.view, s)

theorem Retains.trans (h : s.Retains t) (h' : t.Retains u) : s.Retains u :=
  ⟨h'.reachable, fun v c hc => h'.shown v c (h.shown v c hc)⟩

theorem Fills.trans {name : String} {b b' : Builder} (h : s.Fills name b t) (h' : t.Fills name b' u) :
    s.Fills name b' u :=
  ⟨h.toRetains.trans h'.toRetains, h'.vectors.trans h.vectors, h'.builder⟩

theorem Retains.map_shown? (h : s.Retains t) {vs : List String} {cs : List Column}
    (hcs : vs.map s.shown? = cs.map some) : vs.map t.shown? = cs.map some := by
  induction vs generalizing cs with
  | nil => exact hcs
  | cons v vs ih =>
    obtain ⟨c, cs, rfl, hc, hcs⟩ := List.map_eq_cons_iff.mp hcs.symm
    rw [List.map_cons, List.map_cons, ih hcs.symm, h.shown v c hc.symm]

theorem retains_of_columns (ht : t.Reachable .unlimited) (hvectors : t.vectors = s.vectors)
    (hcolumns : ∀ id c, s.column? id = some c → t.column? id = some c) : s.Retains t := by
  refine ⟨ht, fun v c hc => ?_⟩
  simp only [shown?, Option.bind_eq_bind, Option.bind_eq_some_iff, hvectors] at hc ⊢
  obtain ⟨id, hid, hc⟩ := hc
  exact ⟨id, hid, hcolumns id c hc⟩

theorem displays_of_storage {x : String} {id : Nat} {c : Column}
    (h : s.storage? x = some (id, ⟨c.shape, .host c.payload, 1⟩)) : s.Displays x c := by
  obtain ⟨hid, hst⟩ := storage?_eq_some.mp h
  exact ⟨shown?_eq_some.mpr ⟨id, _, hid, hst, rfl⟩, (step_of_dataless h).1,
    step_view_of_host h (.inl rfl)⟩

/-- **A free name** that a new vector gets. -/
theorem names_of_bind {x : String} {id : Nat} {c : Column} (hx : s.vectors.find? x = none)
    (ht : (t.bind x id).Reachable .unlimited) (hvectors : t.vectors = s.vectors)
    (hcolumns : ∀ id c, s.column? id = some c → t.column? id = some c)
    (hst : t.storages.find? id = some ⟨c.shape, .host c.payload, 1⟩) :
    s.Names [x] [c] (t.bind x id) ∧ (t.bind x id).Displays x c := by
  have hbind : t.bind x id = { t with vectors := t.vectors.insert x id } := by
    simp only [Session.bind, unbind, hvectors, hx]
  have hfind (y : String) : (t.bind x id).vectors.find? y =
      if y = x then some id else s.vectors.find? y := by
    rw [hbind, ← hvectors]
    exact Table.find?_insert _ _ _ _
  have hstorage : (t.bind x id).storage? x = some (id, ⟨c.shape, .host c.payload, 1⟩) := by
    refine storage?_eq_some.mpr ⟨by rw [hfind, if_pos rfl], ?_⟩
    rw [hbind]
    exact hst
  have hdisplays := displays_of_storage hstorage
  refine ⟨⟨⟨ht, fun v d hd => ?_⟩, by simp [hdisplays.shown], fun y hy hfree => ?_⟩, hdisplays⟩
  · simp only [shown?, Option.bind_eq_bind, Option.bind_eq_some_iff] at hd ⊢
    obtain ⟨i, hi, hd⟩ := hd
    have hne : v ≠ x := by
      rintro rfl
      rw [hx] at hi
      cases hi
    refine ⟨i, by rw [hfind, if_neg hne, hi], ?_⟩
    rw [hbind]
    exact hcolumns i d hd
  · rw [hfind, if_neg (by simpa using hy), hfree]

end Session

/-! ## Making vectors -/

open Session

/-- That a vector can be made with the content of a column, unless a device fails. -/
def Making.Gives (m : Making) (c : Column) (s : Session) : Prop :=
  (∃ id s', (make m).exec s = (.ok id, s') ∧
    s'.storages.find? id = some ⟨c.shape, .host c.payload, 1⟩) ∨
  ∃ e s', (make m).exec s = (.error (.fault (.refused (.device e))), s')

namespace Action

variable {s s' : Session} {vs : List String} {cs : List Column} {c : Column}

/-- Only a device can keep the data of vectors from being brought. -/
theorem error_of_materializeAll {C : Column → Prop} {B : Builder → Prop} (hs : s.Sound C B)
    (hcs : vs.map s.shown? = cs.map some) {stop : Stop}
    (hstop : (vs.mapM materialize).exec s = (.error stop, s')) :
    ∃ e, stop = .fault (.refused (.device e)) := by
  induction vs generalizing s cs with
  | nil => cases hstop
  | cons v vs ih =>
    obtain ⟨c, cs, rfl, hc, hcs⟩ := List.map_eq_cons_iff.mp hcs.symm
    obtain ⟨hs₁, hlater, -⟩ := safe_materialize hs v
    rw [List.mapM_cons, exec_bind] at hstop
    rcases hx : (materialize v).exec s with ⟨stop | p, s₁⟩
    · rw [hx] at hstop
      cases hstop
      exact error_of_materialize hc.symm (by rw [hx])
    · rw [hx] at hstop hs₁ hlater
      simp only [exec_bind] at hstop
      rcases hrest : (vs.mapM materialize).exec s₁ with ⟨stop | ps, s₂⟩
      · rw [hrest] at hstop
        cases hstop
        exact ih hs₁ (hlater.map_shown? hcs.symm) hrest
      · rw [hrest] at hstop
        cases hstop

/-- **Vectors can be joined** if their columns can. -/
theorem gives_concat (hs : s.Reachable .unlimited) (hcs : vs.map s.shown? = cs.map some)
    (hc : Column.concat cs = .ok c) : (Making.concat vs).Gives c s := by
  have hsound := hs.sound invariant_wellFormed
  rcases hp : (vs.mapM materialize).exec s with ⟨stop | ps, s'⟩
  · obtain ⟨e, rfl⟩ := error_of_materializeAll hsound hcs hp
    simp only [Column.concat, Outcome.bind_eq_ok] at hc
    obtain ⟨k, hk, start, hstart, taken, htaken, -⟩ := hc
    refine .inr ⟨e, s', ?_⟩
    simp only [make, concat, exec_bind, exec_shapes hsound.coherent hcs, exec_act, hk, hstart,
      exec_takeAll hsound hcs htaken, hp]
  · exact .inl (exec_concat hsound hcs hp hc)

/-- **A vector can be cast** if its column can, and there is room for its elements. -/
theorem gives_cast (hs : s.Reachable .unlimited) {v : String} {d : Column} (hd : s.shown? v = some d)
    {k : Kind} {rule : CastRule} (hrule : d.kind.castRule? k = some rule) (hcast : d.cast k = .ok c)
    (hroom : d.kind = k ∨ Elements.reserved k d.rows ≤ maxSize) : (Making.cast v k).Gives c s := by
  have hsound := hs.sound invariant_wellFormed
  rcases hx : (materialize v).exec s with ⟨stop | p, s'⟩
  · obtain ⟨e, rfl⟩ := error_of_materialize hd (by rw [hx])
    exact .inr ⟨e, s', exec_cast_of_error hsound.coherent hd hrule hx⟩
  · exact .inl ((exec_cast hsound.coherent hd hrule hx hcast).1
      (hroom.imp_left fun hk => Kind.rule_eq_identity hrule hk))

end Action

namespace Session

variable {s t : Session}

/-- Nothing that makes a vector is past having no limits. -/
theorem within_unlimited (m : Making) (x : String) : (Command.make m x).Within .unlimited := by
  cases m <;> trivial

/-- **A new vector** under a free name. -/
theorem leads_make (hs : s.Reachable .unlimited) {m : Making} {c : Column} (hm : m.Gives c s)
    {x : String} (hx : s.vectors.find? x = none) :
    s.Leads [.make m x] fun t => s.Names [x] [c] t ∧ t.Displays x c := by
  intro hreply
  have hwithin := within_unlimited m x
  have ht := hs.step hwithin
  have hlater := (safe_make invariant_wellFormed (hs.sound invariant_wellFormed) hwithin).later
  rcases hm with ⟨id, s', hexec, hst⟩ | ⟨e, s', hexec⟩
  · have hstep : s.step (.make m x) = (.vector ⟨c.shape, .host, 1⟩, s'.bind x id) := by
      simp only [step_eq_exec, reply, exec_bind, hexec, exec_settle hst, exec_pure]
      rfl
    rw [hexec] at hlater
    rw [hstep] at ht ⊢
    exact ⟨by simp, names_of_bind hx ht hlater.vectors hlater.columns hst⟩
  · have hstep : s.step (.make m x) = (.stopped (.fault (.refused (.device e))), s') := by
      simp only [step_eq_exec, reply, exec_bind, hexec]
    rw [hstep] at hreply
    exact absurd rfl (hreply e)

/-- **New vectors**, one after the other, each of what was there before the first. -/
theorem leads_makeAll {α : Type} {m : α → Making} {x : α → String} {f : α → Outcome Column}
    {as : List α} {cs : List Column} (hs : s.Reachable .unlimited) (hcs : as.map f = cs.map .ok)
    (hgives : ∀ a ∈ as, ∀ c, f a = .ok c → ∀ t, s.Retains t → (m a).Gives c t)
    (hfree : ∀ a ∈ as, s.vectors.find? (x a) = none) (hdistinct : (as.map x).Nodup) :
    s.Leads (as.map fun a => .make (m a) (x a)) (s.Names (as.map x) cs) := by
  induction as generalizing s cs with
  | nil =>
    obtain rfl : cs = [] := by simpa using hcs.symm
    exact ⟨⟨hs, fun _ _ h => h⟩, rfl, fun _ _ h => h⟩
  | cons a as ih =>
    obtain ⟨c, cs, rfl, hc, hcs⟩ := List.map_eq_cons_iff.mp hcs.symm
    obtain ⟨hgives_a, hgives⟩ := List.forall_mem_cons.mp hgives
    obtain ⟨hfree_a, hfree⟩ := List.forall_mem_cons.mp hfree
    obtain ⟨hnew, hdistinct⟩ := List.nodup_cons.mp hdistinct
    refine (leads_make hs (hgives_a c hc.symm s ⟨hs, fun _ _ h => h⟩) hfree_a).append
      fun t ht => ?_
    obtain ⟨hnames, hdisplays⟩ := ht
    have hgives_t : ∀ b ∈ as, ∀ d, f b = .ok d → ∀ u, t.Retains u → (m b).Gives d u :=
      fun b hb d hd u hu => hgives b hb d hd u (hnames.toRetains.trans hu)
    refine (ih hnames.reachable hcs.symm hgives_t (fun b hb => hnames.free _ ?_ (hfree b hb))
      hdistinct).mono fun u hu => ?_
    · intro hmem
      exact hnew (List.mem_singleton.mp hmem ▸ List.mem_map_of_mem hb)
    · refine ⟨hnames.toRetains.trans hu.toRetains, ?_, fun y hy hfree => ?_⟩
      · rw [List.map_cons, List.map_cons, List.map_cons, hu.named, hu.shown _ c hdisplays.shown]
      · rw [List.map_cons, List.mem_cons, not_or] at hy
        exact hu.free y hy.2 (hnames.free y (by simpa using hy.1) hfree)

/-! ## Filling builders -/

variable {name x : String} {b b' : Builder}

theorem vectors_dropBuilder (s : Session) (name : String) : (s.dropBuilder name).vectors = s.vectors := by
  unfold dropBuilder
  split
  · rfl
  · exact vectors_reclaim _ _ _

theorem column?_dropBuilder (s : Session) (name : String) (id : Nat) :
    (s.dropBuilder name).column? id = s.column? id := by
  unfold dropBuilder
  split
  · rfl
  · exact (alike_reclaim _ _ _).column? id

theorem leads_newBuilder (hs : s.Reachable .unlimited) {k : Kind} {n : Nat} {withBits : Bool}
    (hb : Builder.create k n withBits = .ok b) :
    s.Leads [.newBuilder name k n withBits] (s.Fills name b) := by
  intro _
  have hstep : s.step (.newBuilder name k n withBits) = (.builder b none,
      (({ s with ledger := s.ledger.register } : Session).dropBuilder name).setBuilder name b) := by
    simp only [step_eq_exec, reply, newBuilder, exec_bind, exec_act, hb, exec_modify, exec_pure]
  have ht := hs.step (c := .newBuilder name k n withBits) trivial
  rw [hstep] at ht ⊢
  have hvectors := vectors_dropBuilder { s with ledger := s.ledger.register } name
  refine ⟨by simp, retains_of_columns ht hvectors fun id c hc => ?_, hvectors,
    Table.find?_insert_self _ _ _⟩
  exact (column?_dropBuilder { s with ledger := s.ledger.register } name id).trans hc

/-- **The rows of a vector** in a builder that takes them over. -/
theorem leads_append (hs : s.Reachable .unlimited) (hb : s.builders.find? name = some b) {v : String}
    {c : Column} (hc : s.shown? v = some c) (happend : b.appendColumn c.shape c.payload = .ok b') :
    s.Leads [.append name (.vector v)] (s.Fills name b') := by
  intro hreply
  have hsound := hs.sound invariant_wellFormed
  have hshape := exec_shape hsound.coherent hc
  have hrequire : b.requireColumn c.shape = .ok () := by
    rw [Builder.appendColumn_eq, Outcome.bind_eq_ok] at happend
    obtain ⟨_, hrequire, -⟩ := happend
    exact hrequire
  have hexec : (append name (.vector v)).exec s = (addTo name (.vector v)).exec s :=
    exec_append_vector hshape
  rw [exec_addTo hb, exec_extended_vector hshape, hrequire] at hexec
  simp only [exec_of_materialize hsound.coherent hc] at hexec
  have ht := hs.step (c := .append name (.vector v)) trivial
  obtain ⟨-, hlater, -⟩ := safe_materialize hsound v
  rcases hx : (materialize v).exec s with ⟨stop | p, s'⟩
  · obtain ⟨e, rfl⟩ := error_of_materialize hc (by rw [hx])
    have hstep : s.step (.append name (.vector v)) = (.builder b (some (.device e)), s') := by
      simp only [step_eq_exec, reply, hexec, hx]
    rw [hstep] at hreply
    exact absurd rfl (hreply e)
  · have hstep : s.step (.append name (.vector v)) = (.builder b' none, s'.setBuilder name b') := by
      simp only [step_eq_exec, reply, hexec, hx, happend, exec_act]
    rw [hx] at hlater
    rw [hstep] at ht ⊢
    exact ⟨by simp, retains_of_columns ht hlater.vectors hlater.columns, hlater.vectors,
      Table.find?_insert_self _ _ _⟩

theorem leads_appendAll (hs : s.Reachable .unlimited) (hb : s.builders.find? name = some b)
    {vs : List String} {cs : List Column} (hcs : vs.map s.shown? = cs.map some)
    (happend : cs.foldlM (fun b c => b.appendColumn c.shape c.payload) b = .ok b') :
    s.Leads (vs.map fun v => .append name (.vector v)) (s.Fills name b') := by
  induction vs generalizing s b cs with
  | nil =>
    obtain rfl : cs = [] := by simpa using hcs.symm
    cases happend
    exact ⟨⟨hs, fun _ _ h => h⟩, rfl, hb⟩
  | cons v vs ih =>
    obtain ⟨c, cs, rfl, hc, hcs⟩ := List.map_eq_cons_iff.mp hcs.symm
    rw [List.foldlM_cons, Outcome.bind_eq_ok] at happend
    obtain ⟨b₁, hb₁, happend⟩ := happend
    refine (leads_append hs hb hc.symm hb₁).append fun t ht => ?_
    exact (ih ht.reachable ht.builder (ht.map_shown? hcs.symm) happend).mono fun u hu => ht.trans hu

/-- **What is built on the host** has the content of the builder. -/
theorem leads_build (hs : s.Reachable .unlimited) (hb : s.builders.find? name = some b)
    (hopen : b.phase = .opened) (hx : s.vectors.find? x = none) :
    s.Leads [.build name .host x] fun t => t.Displays x b.column := by
  intro _
  have hsound := hs.sound invariant_wellFormed
  have ht := hs.step (c := .build name .host x) trivial
  have hlater := (safe_buildOnHost (T := .unlimited) invariant_wellFormed hsound (hsound.builders name b hb)).later
  obtain ⟨id, u, hexec, hst⟩ : ∃ id u, (buildOnHost b).exec s = (.ok (id, b.finish), u) ∧
      u.storages.find? id = some ⟨b.shape, .host b.payload, 1⟩ :=
    ⟨_, _, Builder.exec_buildOnHost hopen s, Table.find?_insert_self _ _ _⟩
  have hstep : s.step (.build name .host x) =
      (.built ⟨b.shape, .host, 1⟩ b.finish, (u.setBuilder name b.finish).bind x id) := by
    simp only [step_eq_exec, reply, buildTo, exec_buildBy actsAs_buildOnHost hb hexec hst]
    rfl
  rw [hexec] at hlater
  rw [hstep] at ht ⊢
  exact ⟨by simp, (names_of_bind (c := b.column) hx ht hlater.vectors hlater.columns hst).2⟩

end Session

end Columnar
