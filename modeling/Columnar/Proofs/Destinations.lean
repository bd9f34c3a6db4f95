/-
Vectors on the host and on a device.

`Session.Arising` is any session that commands lead to from an empty one, whatever goes
wrong on its runtimes. A builder in it can be built on the host, or on a runtime on
which nothing goes wrong any more: either way the vector holds what the builder holds,
and no script tells the two apart (`Session.destinations_of_arising`).
-/
import Columnar.Proofs.Residing

namespace Columnar.Session

/-- A session that commands lead to. -/
inductive Arising : Session → Prop where
  | start (config : Option Config) : Arising { config := config }
  | step {s : Session} (h : Arising s) (c : Command) : Arising (s.step c).2

variable {N : Nat → Prop} {s t : Session}

theorem Arising.run (hs : s.Arising) (script : List Command) : (s.run script).2.Arising := by
  induction script generalizing s with
  | nil => exact hs
  | cons c rest ih =>
    by_cases hfault : (s.step c).1 = .stopped (.fault .outOfBounds)
    · rw [run_cons_of_fault hfault]
      exact hs.step c
    · rw [run_cons_of_ne hfault]
      exact ih (hs.step c)

/-- **Every session that commands lead to is proper**: it is a twin of itself, and
what keeps twins keeps it. -/
theorem Arising.proper (hs : s.Arising) : s.Proper fun _ => False := by
  induction hs with
  | start config =>
    have hsound : ({ config := config } : Session).Sound (fun _ => True) fun _ => True := sound_start config
    exact ⟨hsound.coherent.toOrderly, fun _ hi => hi.elim, by simp [Suited], by simp⟩
  | step _ c ih => exact ((Twins.refl ih).step (c := c) fun _ hi => hi).2.left

/-! ## New vectors -/

theorem find?_releaseHandle {id j : Nat} (hj : j ≠ id) (released : Bool) :
    (s.releaseHandle id released).storages.find? j = s.storages.find? j := by
  unfold Session.releaseHandle
  split
  next => rfl
  next st _ =>
    simp only
    split
    next =>
      have hfree : (({ s with storages := s.storages.erase id } : Session).freePlace st.place).storages =
          s.storages.erase id := by
        unfold Session.freePlace
        split <;> rfl
      rw [(alike_reclaim _ _ _).storages, hfree]
      exact Table.find?_erase_of_ne _ hj
    next => rw [find?_setStorage, if_neg hj]

/-- **A name** shows the storage that it is given to. -/
theorem Orderly.bind (h : s.Orderly) {name : String} {id : Nat} {st : Storage}
    (hst : s.storages.find? id = some st) (hfresh : s.vectors.find? name ≠ some id) :
    (s.bind name id).vectors.find? name = some id ∧ (s.bind name id).storages.find? id = some st ∧
      (s.bind name id).payloadOf st = s.payloadOf st := by
  refine ⟨Table.find?_insert_self _ _ _, ?_⟩
  show (s.unbind name false).storages.find? id = some st ∧
    (s.unbind name false).payloadOf st = s.payloadOf st
  unfold Session.unbind
  cases hold : s.vectors.find? name with
  | none => exact ⟨hst, rfl⟩
  | some old =>
    have hne : id ≠ old := by
      rintro rfl
      exact hfresh hold
    have halike : s.Alike { s with vectors := s.vectors.erase name } := ⟨rfl, rfl, rfl, Nat.le_refl _⟩
    obtain ⟨-, hcolumns, -⟩ := (h.alike halike).releaseHandle old false
    have hst' := (find?_releaseHandle hne (s := { s with vectors := s.vectors.erase name }) false).trans hst
    exact ⟨hst', payloadOf_of_column? (s := { s with vectors := s.vectors.erase name }) hst hst'
      (hcolumns id hne)⟩

open Columnar.Action

theorem exec_buildBy {w : Work Nat} {f : Builder → Action (Nat × Builder)} (hw : ActsAs w f)
    {name target : String} {b after : Builder} {id : Nat} {st : Storage} {s' : Session}
    (hb : s.builders.find? name = some b) (hf : (f b).exec s = (.ok (id, after), s'))
    (hst : s'.storages.find? id = some st) :
    (buildBy w name target).exec s =
      (.ok (.built st.info after), (s'.setBuilder name after).bind target id) := by
  have hfound : (s'.setBuilder name after).storages.find? id = some st := hst
  rw [buildBy_eq hw]
  simp only [exec_bind, exec_builder hb, exec_refusal, hf, exec_modify, settle, infoOf, exec_get, hfound,
    exec_named, exec_pure]

theorem exec_buildBy_error {w : Work Nat} {f : Builder → Action (Nat × Builder)} (hw : ActsAs w f)
    {name : String} (target : String) {b : Builder} {e : ColumnError} {s' : Session}
    (hb : s.builders.find? name = some b) (hf : (f b).exec s = (.error (.fault (.refused e)), s')) :
    (buildBy w name target).exec s = (.ok (.builder b (some e)), s') := by
  rw [buildBy_eq hw]
  simp only [exec_bind, exec_builder hb, exec_refusal, hf, exec_pure]

/-- That a way to build takes all that a builder holds and places it in a new storage. -/
structure Places (N : Nat → Prop) (work : Builder → Action (Nat × Builder)) (s : Session) (b : Builder)
    (place : Place) (s' : Session) : Prop where
  proper : s'.Proper N
  ledger : s'.ledger = s.ledger
  unshared : s'.Unshared place
  payload : s'.payloadOf ⟨b.shape, place, 1⟩ = b.payload
  exec : (work b).exec s =
    (.ok (s.ledger.registered + 1, b.finish), (s'.addStorage b.shape place).2)

theorem places_buildOnHost (h : s.Proper N) {b : Builder} (hopen : b.phase = .opened) :
    Places N buildOnHost s b (.host b.payload) (s.log (.builtOnHost b.kind b.rows b.nulls)) where
  proper := ((Twins.refl h).log _).right
  ledger := rfl
  unshared := unshared_host _ _
  payload := rfl
  exec := Builder.exec_buildOnHost hopen s

theorem places_buildOnDevice (h : s.Proper N) {b : Builder} (hopen : b.phase = .opened)
    (hsuits : b.elements.Suits b.kind) {i : Nat} (hi : i < s.runtimes.size)
    {allocations : List Allocation} {r : Runtime} (hr : N i → r.Reliable)
    (hup : (s.runtime i).uploadAll b.payload.buffers = (.ok allocations, r)) :
    Places N (buildOnDevice · i) s b (.device ⟨i, allocations⟩)
      ((s.setRuntime i r).log (.builtOnDevice b.kind b.rows b.nulls)) where
  proper :=
    have hset := (h.setRuntime hi (h.toOrderly.spares (Runtime.of_uploadAll hup).1) hr).1
    ((Twins.refl hset).log _).right
  ledger := rfl
  unshared := (h.toOrderly.unshared_of_uploadAll hi hup).log _
  payload := payloadOf_of_uploadAll (c := b.column) (Elements.suits_finish hsuits) hup
  exec := Builder.exec_buildOnDevice hopen hup

/-- **A builder's content that is placed somewhere** is bound to the target. -/
theorem Places.exec_buildBy {f : Builder → Action (Nat × Builder)} {b : Builder} {place : Place}
    {s' : Session} (h : Places N f s b place s') {w : Work Nat} (hw : ActsAs w f) {name : String}
    (target : String) (hb : s.builders.find? name = some b) :
    ∃ t id, (buildBy w name target).exec s =
        (.ok (.built ⟨b.shape, place.residency, 1⟩ b.finish), t) ∧
      t.Proper N ∧ t.vectors.find? target = some id ∧
      t.storages.find? id = some ⟨b.shape, place, 1⟩ ∧ t.payloadOf ⟨b.shape, place, 1⟩ = b.payload := by
  have hbits : b.shape.hasValidity = (s'.payloadOf ⟨b.shape, place, 1⟩).validity.isSome := by
    rw [h.payload]
    rfl
  have hid : s.ledger.registered + 1 = s'.ledger.registered + 1 := by rw [h.ledger]
  have hadded := (Twins.refl h.proper).addStorage hbits h.unshared h.unshared (.refl N s' _)
  have hset := hadded.setBuilder name (b := b.finish) (Elements.suits_empty _)
  -- The number of the new storage is higher than any that a name has had.
  have hfresh : s'.vectors.find? target ≠ some (s.ledger.registered + 1) := fun hold =>
    Nat.not_succ_le_self _ (hid ▸ h.proper.bound target _ hold)
  have hst : (s'.addStorage b.shape place).2.storages.find? (s.ledger.registered + 1) =
      some ⟨b.shape, place, 1⟩ := by
    rw [find?_addStorage, if_pos hid]
  obtain ⟨hname, hfound, hkept⟩ := hset.left.toOrderly.bind hst hfresh
  exact ⟨_, _, Session.exec_buildBy hw hb h.exec hst, (hset.bind target (hset.left.ids _ _ hst)).left,
    hname, hfound, hkept.trans h.payload⟩

theorem shown?_of_payload {v : String} {id : Nat} {b : Builder} {place : Place}
    (hid : s.vectors.find? v = some id) (hst : s.storages.find? id = some ⟨b.shape, place, 1⟩)
    (hpayload : s.payloadOf ⟨b.shape, place, 1⟩ = b.payload) : s.shown? v = some b.column := by
  refine shown?_eq_some.mpr ⟨id, _, hid, hst, ?_⟩
  rw [columnOf, hpayload]
  rfl

/-- A near vector can be viewed. -/
theorem answer_view_near (h : s.Proper N) {v : String} {id : Nat} {st : Storage}
    (hid : s.vectors.find? v = some id) (hst : s.storages.find? id = some st) (hnear : st.place.Near N) :
    ((view v).exec s).1 = .ok (st.shape.column (s.payloadOf st)).view := by
  obtain ⟨s', hread, -⟩ := exec_materialize_near h hid hst hnear
  simp only [view, shape, exec_bind, exec_storage hid hst, exec_pure, hread]

/-! ## Ways to build -/

/-- That a way to build, if it answers, was given an open builder and has placed what
that holds. -/
def Placing (work : Builder → Action (Nat × Builder)) (s : Session) : Prop :=
  ∀ (b : Builder) (p : Nat × Builder) (s' : Session), b.elements.Suits b.kind →
    (work b).exec s = (.ok p, s') →
      b.phase = .opened ∧ ∃ place t, Places (fun _ => False) work s b place t

theorem placing_buildOnHost (h : s.Proper fun _ => False) : Placing buildOnHost s := by
  intro b p s' _ hx
  by_cases hopen : b.phase = .opened
  · exact ⟨hopen, _, _, places_buildOnHost h hopen⟩
  · obtain ⟨e, he⟩ := Builder.exec_buildOnHost_of_ne hopen s
    cases he.symm.trans hx

theorem placing_buildOnDevice (h : s.Proper fun _ => False) {i : Nat} (hi : i < s.runtimes.size) :
    Placing (buildOnDevice · i) s := by
  intro b p s' hsuits hx
  by_cases hopen : b.phase = .opened
  · rcases hup : (s.runtime i).uploadAll b.payload.buffers with ⟨e | allocations, r⟩
    · cases (Builder.exec_buildOnDevice_error hopen hup).symm.trans hx
    · exact ⟨hopen, _, _, places_buildOnDevice h hopen hsuits hi False.elim hup⟩
  · obtain ⟨e, he⟩ := Builder.exec_buildOnDevice_of_ne hopen i s
    cases he.symm.trans hx

theorem placing_build (h : s.Proper fun _ => False) : Placing build s := by
  have hsettled : ({ s with config := some s.settledConfig } : Session).Proper fun _ => False :=
    h.alike ⟨rfl, rfl, rfl, Nat.le_refl _⟩ rfl rfl
  intro b p s' hsuits hx
  have hplaces : b.phase = .opened ∧ ∃ place t, Places (fun _ => False)
      (fun b => if s.settledConfig.uploadOnBuild then buildOnDevice b 0 else buildOnHost b)
      { s with config := some s.settledConfig } b place t := by
    rw [exec_build] at hx
    split at hx
    next hupload =>
      simp only [hupload, if_true]
      exact placing_buildOnDevice hsettled h.default b p s' hsuits hx
    next hupload =>
      simp only [hupload]
      exact placing_buildOnHost hsettled b p s' hsuits hx
  obtain ⟨hopen, place, t, ht⟩ := hplaces
  exact ⟨hopen, place, t, ht.proper, ht.ledger, ht.unshared, ht.payload, (exec_build b s).trans ht.exec⟩

/-- **A vector that has been built** shows what the builder held. -/
theorem shown?_of_buildBy (h : s.Proper fun _ => False) {w : Work Nat}
    {f : Builder → Action (Nat × Builder)} (hw : ActsAs w f) (hplacing : Placing f s)
    {name target : String} {info : VectorInfo} {after : Builder} {t : Session}
    (hx : (buildBy w name target).exec s = (.ok (.built info after), t)) :
    ∃ b, s.builders.find? name = some b ∧ b.phase = .opened ∧ info.shape = b.shape ∧
      after = b.finish ∧ t.shown? target = some b.column := by
  cases hb : s.builders.find? name with
  | none =>
    rw [buildBy_eq hw, exec_bind, exec_builder_none hb] at hx
    cases hx
  | some b =>
    rcases hexec : (f b).exec s with ⟨stop | p, s'⟩
    · rw [buildBy_eq hw] at hx
      simp only [exec_bind, exec_builder hb, exec_refusal, hexec] at hx
      rcases stop with (_ | _) | _ <;> cases hx
    · obtain ⟨hopen, place, s₁, hplaces⟩ := hplacing b p s' (h.suits name b hb) hexec
      obtain ⟨u, id, hu, -, hname, hfound, hpayload⟩ := hplaces.exec_buildBy hw target hb
      cases hx.symm.trans hu
      exact ⟨b, rfl, hopen, rfl, rfl, shown?_of_payload hname hfound hpayload⟩

/-- The same of a command, wherever it builds. -/
theorem shown?_of_built (h : s.Proper fun _ => False) {name target : String} {destination : Destination}
    {info : VectorInfo} {after : Builder} {t : Session}
    (hx : s.step (.build name destination target) = (.built info after, t)) :
    ∃ b, s.builders.find? name = some b ∧ b.phase = .opened ∧ info.shape = b.shape ∧
      after = b.finish ∧ t.shown? target = some b.column := by
  have hexec : (buildTo name destination target).exec s = (.ok (.built info after), t) := by
    rw [step_eq_exec] at hx
    split at hx
    next heq =>
      cases hx
      exact heq
    next => cases hx
  cases destination with
  | configured => exact shown?_of_buildBy h actsAs_build (placing_build h) hexec
  | host => exact shown?_of_buildBy h actsAs_buildOnHost (placing_buildOnHost h) hexec
  | runtime other =>
    simp only [buildTo, Action.runtime, exec_bind, exec_get, exec_named] at hexec
    cases hi : s.runtimeNames.find? other with
    | none =>
      rw [hi] at hexec
      cases hexec
    | some i =>
      rw [hi] at hexec
      exact shown?_of_buildBy h (actsAs_buildOnDevice i) (placing_buildOnDevice h (h.names other i hi)) hexec

/-- **The host and a device build the same.** In any session that commands lead to, and
for any runtime on which nothing goes wrong any more, an open builder can be built on
the host and on the runtime. The two vectors have one shape, show the column that the
builder holds and bring it to the host unchanged; and from then on every script is
answered alike in the two sessions, whatever it reads, makes or adds, but for where
vectors lie, the use of devices and the log. -/
theorem destinations_of_arising (hs : s.Arising) {name : String} (target : String) {b : Builder} {i : Nat}
    (hb : s.builders.find? name = some b) (hopen : b.phase = .opened) (hi : i < s.runtimes.size)
    (hreliable : (s.runtime i).Reliable) :
    ∃ t u,
      (buildBy Work.buildOnHost name target).exec s = (.ok (.built ⟨b.shape, .host, 1⟩ b.finish), t) ∧
      (buildBy (Work.buildOnDevice i) name target).exec s =
        (.ok (.built ⟨b.shape, .device, 1⟩ b.finish), u) ∧
      t.shown? target = some b.column ∧ u.shown? target = some b.column ∧
      ((view target).exec t).1 = .ok b.column.view ∧ ((view target).exec u).1 = .ok b.column.view ∧
      ∀ script : List Command, (∀ c ∈ script, c = .defaultRuntimeBytes → i ≠ 0) →
        (t.run script).1.map Reply.blind = (u.run script).1.map Reply.blind := by
  have hproper : s.Proper (· = i) := hs.proper.mono fun j hj => by
    subst hj
    exact ⟨hi, hreliable⟩
  have hsuits := hproper.suits name b hb
  obtain ⟨t, j, ht, htproper, htname, htfound, htpayload⟩ :=
    (places_buildOnHost hproper hopen).exec_buildBy actsAs_buildOnHost target hb
  obtain ⟨allocations, r, hup, hr⟩ := hreliable.uploadAll b.payload.buffers
  obtain ⟨u, k, hu, huproper, huname, hufound, hupayload⟩ :=
    (places_buildOnDevice hproper hopen hsuits hi (fun _ => hr) hup).exec_buildBy (actsAs_buildOnDevice i)
      target hb
  have hnear : (Place.device ⟨i, allocations⟩).Near (· = i) := fun d hd => by
    cases hd
    rfl
  refine ⟨t, u, ht, hu, shown?_of_payload htname htfound htpayload,
    shown?_of_payload huname hufound hupayload, ?_, ?_, fun script hscript => ?_⟩
  · rw [answer_view_near htproper htname htfound (Place.near_host _ _), htpayload]
    rfl
  · rw [answer_view_near huproper huname hufound hnear, hupayload]
    rfl
  have htwins : t.Twins (· = i) u := by
    have hagree : Agree (Twins (· = i)) (buildBy Work.buildOnHost name target)
        (buildBy (Work.buildOnDevice i) name target) s s fun a b _ _ => a.blind = b.blind :=
      agree_buildBy (.refl hproper) actsAs_buildOnHost (actsAs_buildOnDevice i)
        (fun _ hb => agree_buildOnHost_buildOnDevice (.refl hproper) hb rfl) name target
    cases hagree with
    | stops hx => cases ht.symm.trans hx
    | answers hx hy htwins =>
      cases ht.symm.trans hx
      cases hu.symm.trans hy
      exact htwins
  exact (htwins.run fun c hc h heq => hscript c hc h heq.symm).1

/-- A string and a null, on the host and on a runtime of its own. -/
theorem destinations_of_texts :
    let s := (Session.run { config := none } [.newBuilder "b" .string 2 false,
      .append "b" (.rows (.optionTexts [some "é", none])), .newRuntime "r" {}]).2
    ∃ b, s.builders.find? "b" = some b ∧ b.phase = .opened ∧ ∃ t u,
      (buildBy Work.buildOnHost "b" "v").exec s = (.ok (.built ⟨b.shape, .host, 1⟩ b.finish), t) ∧
      (buildBy (Work.buildOnDevice 1) "b" "v").exec s =
        (.ok (.built ⟨b.shape, .device, 1⟩ b.finish), u) ∧
      ((view "v").exec t).1 = .ok b.column.view ∧ ((view "v").exec u).1 = .ok b.column.view := by
  intro s
  have hs : s.Arising := (Arising.start none).run _
  have hreliable : (s.runtime 1).Reliable := by
    constructor
    · exact fun n _ => List.not_mem_nil
    · exact fun n _ => List.not_mem_nil
    · exact fun n bytes _ => rfl
  have hb : s.builders.find? "b" = some ((s.builders.find? "b").getD (.new .string 2)) := rfl
  refine ⟨_, hb, rfl, ?_⟩
  obtain ⟨t, u, ht, hu, -, -, hview, hview', -⟩ :=
    destinations_of_arising hs "v" hb rfl (by decide +kernel : 1 < s.runtimes.size) hreliable
  exact ⟨t, u, ht, hu, hview, hview'⟩

end Columnar.Session
