/-
Where a vector lies makes no difference.

Everything that can be asked of a session is answered alike by a twin of it, up to
where it says that vectors lie, the use of devices and the log (`Reply.blind`): each
command agrees in twins (`Action.agree_reply`), and so do scripts (`Session.Twins.run`).
-/
import Columnar.Proofs.Twins

namespace Columnar

/-! ## Answers without places -/

def VectorInfo.blind (v : VectorInfo) : VectorInfo := { v with residency := .host }

/-- A reply without what it tells of places: where vectors lie, how a device has been
used, and what has been logged. -/
def Reply.blind : Reply → Reply
  | .built v b => .built v.blind b
  | .vector v => .vector v.blind
  | .dump values raw info => .dump values raw info.blind
  | .device _ => .device {}
  | .events _ => .events []
  | reply => reply

open Session

namespace Action

variable {N : Nat → Prop} {s t : Session} {α : Type}

/-! ## Reads -/

/-- **A near vector is brought**, and all stays as it is but for its place. -/
theorem exec_materialize_near (h : s.Proper N) {v : String} {id : Nat} {st : Storage}
    (hid : s.vectors.find? v = some id) (hst : s.storages.find? id = some st) (hnear : st.place.Near N) :
    ∃ s', (materialize v).exec s = (.ok (s.payloadOf st), s') ∧ s.Twins N s' := by
  cases hplace : st.place with
  | host p =>
    refine ⟨s, ?_, .refl h⟩
    rw [payloadOf, hplace]
    simp only [materialize, exec_bind, exec_storage hid hst, hplace, exec_pure]
  | both p d =>
    refine ⟨s, ?_, .refl h⟩
    rw [payloadOf, hplace]
    simp only [materialize, exec_bind, exec_storage hid hst, hplace, exec_pure]
  | device d =>
    have hcopy : st.place.deviceCopy? = some d := by rw [hplace]; rfl
    have hi := hnear d hcopy
    obtain ⟨r, hdown, hr⟩ := (h.reliable _ hi).2.downloadAll (h.copies id st d hst hcopy).2
    have hpayload : s.payloadOf st =
        Payload.ofBuffers st.shape ((s.runtime d.runtime).fetched d.allocations) := by
      rw [payloadOf, hplace]
    -- Three changes of a twin: the log, the runtime that is read, and the place.
    have hlog : s.Twins N (s.log (.materializing st.shape.rows)) := (Twins.refl h).log _
    have hruntime := hlog.setRuntime_near hi
      (hlog.right.toOrderly.spares (Runtime.keeps_of_downloadAll hdown)) hr
    have hstorage := hruntime.setStorage_near { st with place := .both (s.payloadOf st) d } hst hst
      hcopy.symm ⟨rfl, rfl, rfl, .inr ⟨hnear, fun _ hd => hnear _ (hcopy.trans hd)⟩⟩
    refine ⟨_, ?_, hstorage⟩
    simp only [materialize, exec_bind, exec_storage hid hst, hplace, exec_modify, fetch, exec_get,
      runtime_log, hdown, exec_pure, hpayload]

theorem agree_storage (h : s.Twins N t) (v : String) :
    Agree (Twins N) (storage v) (storage v) s t fun p q s' t' =>
      p.1 = q.1 ∧ s'.storages.find? p.1 = some p.2 ∧ t'.storages.find? p.1 = some q.2 ∧
        TwinStorage N s' t' p.2 q.2 := by
  refine Agree.bindGet ?_
  simp only [storage?, h.vectors]
  cases hid : s.vectors.find? v with
  | none => exact Agree.throw h
  | some id =>
    rcases h.storages id with ⟨hs, ht⟩ | ⟨st, u, hst, hu, htwin⟩
    · simp only [Option.bind_eq_bind, Option.bind_some, hs, ht]
      exact Agree.throw h
    · simp only [Option.bind_eq_bind, Option.bind_some, hst, hu]
      exact Agree.pure h ⟨rfl, hst, hu, htwin⟩

theorem same_shape (h : s.Twins N t) (v : String) : Same (Twins N) (shape v) s t := by
  refine (agree_storage h v).bind ?_
  rintro p q _ _ h ⟨-, -, -, htwin⟩
  exact Agree.pure h htwin.shape.symm

theorem agree_info (h : s.Twins N t) (v : String) :
    Agree (Twins N) (info v) (info v) s t fun a b _ _ => a.blind = b.blind := by
  refine (agree_storage h v).bind ?_
  rintro p q _ _ h ⟨-, -, -, htwin⟩
  refine Agree.pure h ?_
  simp only [Storage.info, VectorInfo.blind, htwin.shape, htwin.handles]

/-- What is fetched from a far runtime is fetched in both sessions. -/
theorem same_fetch (h : s.Twins N t) {id : Nat} {st u : Storage} {d : DeviceCopy}
    (hst : s.storages.find? id = some st) (hu : t.storages.find? id = some u)
    (htwin : TwinStorage N s t st u) (hplace : st.place = .device d) (hsame : u.place = st.place)
    (hi : ¬ N d.runtime) :
    Agree (Twins N) (fetch id st d) (fetch id u d) s t fun p q _ _ => p = q := by
  have hcopy : st.place.deviceCopy? = some d := by rw [hplace]; rfl
  have hcopy' : u.place.deviceCopy? = some d := hsame ▸ hcopy
  have hruntime := h.runtimes _ hi
  refine Agree.bindGet ?_
  rw [hruntime]
  rcases hdown : (s.runtime d.runtime).downloadAll d.allocations with ⟨fetched, r⟩
  have hkeeps := Runtime.keeps_of_downloadAll hdown
  have hset := h.setRuntime_far hi (h.left.copies id st d hst hcopy).1 (h.left.toOrderly.spares hkeeps)
    (h.right.toOrderly.spares (hruntime.symm ▸ hkeeps))
  refine Agree.bindModify ?_
  cases fetched with
  | error e => exact Agree.throw hset
  | ok buffers =>
    refine Agree.bindModify (Agree.pure ?_ (by rw [htwin.shape]))
    refine hset.setStorage hst hu hcopy.symm hcopy'.symm ?_ ?_
    · exact (Payload.isSome_validity_ofBuffers st.shape buffers).symm
    · exact ⟨htwin.shape, htwin.handles, by rw [htwin.shape]; rfl, .inl (by rw [htwin.shape])⟩

/-- **The data** of a vector is the same, and brought from far runtimes in the same way. -/
theorem same_materialize (h : s.Twins N t) (v : String) : Same (Twins N) (materialize v) s t := by
  cases hid : s.vectors.find? v with
  | none =>
    have hs : s.storage? v = none := by simp [storage?, hid]
    have ht : t.storage? v = none := by simp [storage?, h.vectors, hid]
    exact .stops (exec_bind_error (exec_storage_none hs)) (exec_bind_error (exec_storage_none ht)) h
  | some id =>
    have hid' : t.vectors.find? v = some id := h.vectors ▸ hid
    rcases h.storages id with ⟨hs, ht⟩ | ⟨st, u, hst, hu, htwin⟩
    · have hs : s.storage? v = none := by simp [storage?, hid, hs]
      have ht : t.storage? v = none := by simp [storage?, hid', ht]
      exact .stops (exec_bind_error (exec_storage_none hs)) (exec_bind_error (exec_storage_none ht)) h
    · -- Near places are left to each session; with others both do the same.
      have hnear (hs : st.place.Near N) (ht : u.place.Near N) : Same (Twins N) (materialize v) s t := by
        obtain ⟨s', hx, hs'⟩ := exec_materialize_near h.left hid hst hs
        obtain ⟨t', hy, ht'⟩ := exec_materialize_near h.right hid' hu ht
        exact .answers hx hy ((hs'.symm.trans h).trans ht') htwin.payload.symm
      rcases htwin.place with hsame | ⟨hs, ht⟩
      · by_cases hs : st.place.Near N
        · exact hnear hs (hsame ▸ hs)
        · have hfound : Agree (Twins N) (storage v) (storage v) s t fun p q s' t' =>
              s = s' ∧ t = t' ∧ p = (id, st) ∧ q = (id, u) :=
            .answers (exec_storage hid hst) (exec_storage hid' hu) h ⟨rfl, rfl, rfl, rfl⟩
          refine hfound.bind ?_
          rintro _ _ _ _ - ⟨rfl, rfl, rfl, rfl⟩
          simp only [hsame]
          cases hplace : st.place with
          | host p => exact absurd (hplace ▸ Place.near_host N p) hs
          | both p d => exact Agree.pure h rfl
          | device d =>
            have hi : ¬ N d.runtime := fun hi => hs fun d' hd' => by
              rw [hplace] at hd'
              cases hd'
              exact hi
            exact Agree.bindModify (same_fetch (h.logs _ _) hst hu
              ⟨htwin.shape, htwin.handles, htwin.payload, htwin.place⟩ hplace hsame hi)
      · exact hnear hs ht

/-- Twins are alike to all that reads vectors and adds to builders. -/
theorem likeness_twins (N : Nat → Prop) : Likeness (Twins N) where
  shape := same_shape
  materialize := same_materialize
  builders h := h.builders
  suits h := h.left.suits
  setBuilder h name hb := h.setBuilder name hb

/-! ## Making vectors -/

theorem same_addColumn (h : s.Twins N t) (c : Column) : Same (Twins N) (addColumn c) s t := by
  refine Agree.modifyGet (h.addColumn c) ?_
  exact congrArg (fun l : Ledger => l.register.registered) h.ledger.symm

theorem same_config (h : s.Twins N t) : Same (Twins N) config s t := by
  have hsettled : t.settledConfig = s.settledConfig := by rw [settledConfig, h.config, settledConfig]
  refine Agree.modifyGet ?_ hsettled.symm
  refine h.alike ⟨rfl, rfl, rfl, Nat.le_refl _⟩ ⟨rfl, rfl, rfl, Nat.le_refl _⟩ ?_ rfl rfl
  exact ⟨congrArg some hsettled, h.ledger, h.builders, h.vectors, h.runtimeNames⟩

theorem twins_register (h : s.Twins N t) :
    ({ s with ledger := s.ledger.register } : Session).Twins N { t with ledger := t.ledger.register } := by
  refine h.alike ⟨rfl, rfl, rfl, Nat.le_succ _⟩ ⟨rfl, rfl, rfl, Nat.le_succ _⟩ ?_ rfl rfl
  exact ⟨h.config, congrArg Ledger.register h.ledger, h.builders, h.vectors, h.runtimeNames⟩

/-! ### Builders -/

/-- **A near runtime takes what a builder holds**: it lies there and is no other
storage's. -/
theorem exec_buildOnDevice_near (h : s.Proper N) {b : Builder} (hopen : b.phase = .opened)
    (hsuits : b.elements.Suits b.kind) {i : Nat} (hi : N i) :
    ∃ s' allocations, s.Twins N s' ∧ s'.Unshared (.device ⟨i, allocations⟩) ∧
      s'.payloadOf ⟨b.shape, .device ⟨i, allocations⟩, 1⟩ = b.payload ∧
      (buildOnDevice b i).exec s =
        (.ok (s.ledger.registered + 1, b.finish),
          (s'.addStorage b.shape (.device ⟨i, allocations⟩)).2) := by
  obtain ⟨hlt, hreliable⟩ := h.reliable i hi
  obtain ⟨allocations, r, hup, hr⟩ := hreliable.uploadAll b.payload.buffers
  have hspares := h.toOrderly.spares (Runtime.of_uploadAll hup).1
  exact ⟨_, allocations, ((Twins.refl h).setRuntime_near hi hspares hr).log _,
    (h.toOrderly.unshared_of_uploadAll hlt hup).log _,
    payloadOf_of_uploadAll (c := b.column) (Elements.suits_finish hsuits) hup,
    Builder.exec_buildOnDevice hopen hup⟩

/-- Two actions that agree with a third agree with each other. -/
theorem Agree.via {β γ : Type} {x : Action α} {y : Action β} {z : Action γ}
    {Q : α → β → Session → Session → Prop} {P : α → γ → Session → Session → Prop}
    (hy : Agree (Twins N) x y s s Q) (hz : Agree (Twins N) x z s t P) :
    Agree (Twins N) y z s t fun b c s' t' => ∃ a s'', Q a b s'' s' ∧ P a c s'' t' := by
  cases hy with
  | stops hx hy h =>
    cases hz with
    | stops hx' hz h' =>
      cases hx.symm.trans hx'
      exact .stops hy hz (h.symm.trans h')
    | answers hx' => cases hx.symm.trans hx'
  | answers hx hy h hQ =>
    cases hz with
    | stops hx' => cases hx.symm.trans hx'
    | answers hx' hz h' hP =>
      cases hx.symm.trans hx'
      exact .answers hy hz (h.symm.trans h') ⟨_, _, hQ, hP⟩

/-- **The host or a near runtime**: what is made of a builder is a twin. -/
theorem agree_buildOnHost_buildOnDevice (h : s.Twins N t) {b : Builder}
    (hsuits : b.elements.Suits b.kind) {i : Nat} (hi : N i) :
    Agree (Twins N) (buildOnHost b) (buildOnDevice b i) s t fun p q _ _ =>
      p = q ∧ p.2.elements.Suits p.2.kind := by
  by_cases hopen : b.phase = .opened
  · obtain ⟨t', allocations, ht', hunshared, hpayload, hy⟩ :=
      exec_buildOnDevice_near h.right hopen hsuits hi
    have hlogged := (h.trans ht').symm.log (.builtOnHost b.kind b.rows b.nulls) |>.symm
    refine .answers (Builder.exec_buildOnHost hopen s) hy ?_ ⟨by rw [h.ledger], Elements.suits_empty _⟩
    refine hlogged.addStorage rfl (unshared_host _ _) hunshared ?_
    refine ⟨rfl, rfl, hpayload, .inr ⟨Place.near_host N _, fun d hd => ?_⟩⟩
    cases hd
    exact hi
  · refine Agree.bindAct h ?_
    intro _ hok
    exact absurd (Builder.requireOpen_eq_ok.mp hok) hopen

theorem agree_buildOnHost (h : s.Twins N t) {b : Builder} :
    Agree (Twins N) (buildOnHost b) (buildOnHost b) s t fun p q _ _ =>
      p = q ∧ p.2.elements.Suits p.2.kind := by
  refine (Same.act h).bind ?_
  intro _ _ _ h
  refine Agree.bindModify ?_
  refine (same_addColumn (h.logs _ _) b.column).bind ?_
  intro id _ _ h
  exact Agree.pure h ⟨rfl, Elements.suits_empty _⟩

/-- What is made of a builder on one runtime is a twin. -/
theorem agree_buildOnDevice (h : s.Twins N t) {b : Builder} (hsuits : b.elements.Suits b.kind) {i : Nat}
    (hi : i < s.runtimes.size) :
    Agree (Twins N) (buildOnDevice b i) (buildOnDevice b i) s t fun p q _ _ =>
      p = q ∧ p.2.elements.Suits p.2.kind := by
  by_cases hnear : N i
  · -- What the host makes in one of the sessions stands between.
    have hleft := agree_buildOnHost_buildOnDevice (.refl h.left) hsuits hnear
    have hright := agree_buildOnHost_buildOnDevice h hsuits hnear
    refine (hleft.via hright).mono ?_
    rintro _ _ _ _ _ ⟨p, -, ⟨rfl, hp⟩, ⟨rfl, -⟩⟩
    exact ⟨rfl, hp⟩
  · have hruntime := h.runtimes i hnear
    refine Agree.bindAct h ?_
    intro _ _
    simp only [send, bind_assoc, pure_bind]
    refine Agree.bindGet ?_
    rw [hruntime]
    rcases hup : (s.runtime i).uploadAll b.payload.buffers with ⟨sent, r⟩
    have hup' : (t.runtime i).uploadAll b.payload.buffers = (sent, r) := hruntime ▸ hup
    cases sent with
    | error e =>
      have hkeeps := Runtime.keeps_of_uploadAll_error hup
      refine Agree.bindModify (Agree.throw ?_)
      exact h.setRuntime_far hnear hi (h.left.toOrderly.spares hkeeps)
        (h.right.toOrderly.spares (hruntime.symm ▸ hkeeps))
    | ok allocations =>
      have hkeeps := (Runtime.of_uploadAll hup).1
      have hset := h.setRuntime_far hnear hi (h.left.toOrderly.spares hkeeps)
        (h.right.toOrderly.spares (hruntime.symm ▸ hkeeps))
      have hunshared := (h.left.toOrderly.unshared_of_uploadAll hi hup).log (.builtOnDevice b.kind b.rows b.nulls)
      have hunshared' := (h.right.toOrderly.unshared_of_uploadAll (h.size ▸ hi) hup').log
        (.builtOnDevice b.kind b.rows b.nulls)
      refine Agree.bindModify (Agree.bindModify ?_)
      refine Agree.bind (Agree.modifyGet (Q := fun j k _ _ => j = k) ?_ ?_) ?_
      · refine (hset.logs _ _).addStorage (Payload.isSome_validity_ofBuffers _ _).symm hunshared hunshared' ?_
        refine ⟨rfl, rfl, ?_, .inl rfl⟩
        simp only [payloadOf, runtime_log, runtime_setRuntime, if_pos]
      · exact congrArg (fun l : Ledger => l.register.registered) h.ledger.symm
      · rintro j _ _ _ h rfl
        exact Agree.pure h ⟨rfl, Elements.suits_empty _⟩

theorem agree_build (h : s.Twins N t) {b : Builder} (hsuits : b.elements.Suits b.kind) :
    Agree (Twins N) (build b) (build b) s t fun p q _ _ => p = q ∧ p.2.elements.Suits p.2.kind := by
  refine (same_config h).bind ?_
  intro c _ _ h
  split
  · exact agree_buildOnDevice h hsuits h.left.default
  · exact agree_buildOnHost h

theorem same_assemble (h : s.Twins N t) (r : Recipe) : Same (Twins N) (assemble r) s t := by
  have hgiveUp {β : Type} {s t : Session} (h : s.Twins N t) {x : Action β}
      (hx : Same (Twins N) x (s.reclaim .builder true) (t.reclaim .builder true)) :
      Same (Twins N) (do modify (·.reclaim .builder true); x) s t := Agree.bindModify hx
  rw [assemble_eq]
  refine Agree.bindAct h ?_
  intro b hcreate
  have hsuits : b.elements.Suits b.kind := by
    obtain ⟨-, rfl⟩ := Builder.create_eq_ok hcreate
    exact Elements.suits_empty _
  refine Agree.bindModify (Agree.tryCatch ?_ ?_)
  · refine ((likeness_twins N).extendedAll (twins_register h) hsuits r.additions).bind ?_
    rintro b' _ _ _ h ⟨rfl, hb'⟩
    refine (agree_build h hb').bind ?_
    rintro p _ _ _ h ⟨rfl, -⟩
    exact hgiveUp h (Same.pure (h.reclaim .builder true))
  · intro stop _ _ h
    exact hgiveUp h (Same.throw (h.reclaim .builder true))

/-! ### Other vectors -/

theorem same_share (h : s.Twins N t) (v : String) : Same (Twins N) (share v) s t := by
  refine (agree_storage h v).bind ?_
  rintro ⟨id, st⟩ ⟨_, u⟩ s t h ⟨rfl, hst, hu, htwin⟩
  refine Agree.bindModify (Same.pure ?_)
  refine h.setStorage hst hu rfl rfl (h.left.shaped id st hst) ?_
  exact ⟨htwin.shape, congrArg (· + 1) htwin.handles, htwin.payload, htwin.place⟩

theorem same_cast (h : s.Twins N t) (v : String) (target : Kind) : Same (Twins N) (cast v target) s t := by
  refine (same_shape h v).bind ?_
  intro sh _ _ h
  refine (Same.act h).bind ?_
  intro rule _ _ h
  refine (same_materialize h v).bind ?_
  intro p _ _ h
  have hadd {s t : Session} (h : s.Twins N t) :
      Same (Twins N) (do addColumn (← ((sh.column p).cast target).act)) s t := by
    refine (Same.act h).bind ?_
    intro c _ _ h
    exact same_addColumn h c
  refine Agree.bindModify ?_
  split
  · refine (Same.act (h.logs _ _)).bind ?_
    intro _ _ _ h
    exact hadd h
  · exact hadd (h.logs _ _)

theorem same_concat (h : s.Twins N t) (vs : List String) : Same (Twins N) (concat vs) s t := by
  refine ((likeness_twins N).shapes h vs).bind ?_
  intro shapes _ _ h
  refine (Same.act h).bind ?_
  intro k _ _ h
  refine (Same.act h).bind ?_
  intro start _ _ h
  refine ((likeness_twins N).takeAll h start vs).bind ?_
  intro taken _ _ h
  exact Agree.bindModify (same_addColumn (h.logs _ _) _)

theorem same_operate (h : s.Twins N t) (op : Operation) (out : Kind) (l r : String) :
    Same (Twins N) (operate op out l r) s t := by
  refine (same_shape h l).bind ?_
  intro left _ _ h
  refine (same_shape h r).bind ?_
  intro right _ _ h
  refine (Same.act h).bind ?_
  intro _ _ _ h
  refine (same_materialize h r).bind ?_
  intro p _ _ h
  refine (same_materialize h l).bind ?_
  intro q _ _ h
  refine Agree.bindModify ((Same.act (h.logs _ _)).bind ?_)
  intro c _ _ h
  exact same_addColumn h c

theorem same_operateScalar (h : s.Twins N t) (op : Operation) (out : Kind) (l : String) (r : Scalar) :
    Same (Twins N) (operateScalar op out l r) s t := by
  refine (same_shape h l).bind ?_
  intro left _ _ h
  refine (Same.act h).bind ?_
  intro _ _ _ h
  refine (same_materialize h l).bind ?_
  intro p _ _ h
  refine Agree.bindModify ((Same.act (h.logs _ _)).bind ?_)
  intro c _ _ h
  exact same_addColumn h c

/-- **Making a vector** makes twins of twins, under one number. -/
theorem same_make (h : s.Twins N t) (m : Making) : Same (Twins N) (make m) s t := by
  cases m with
  | assemble r => exact same_assemble h r
  | ofParts kind rows data validity =>
    refine (Same.act h).bind ?_
    intro c _ _ h
    exact same_addColumn h c
  | share v => exact same_share h v
  | cast v target => exact same_cast h v target
  | concat vs => exact same_concat h vs
  | operate op out l r => exact same_operate h op out l r
  | operateScalar op out l r => exact same_operateScalar h op out l r

/-! ## Commands -/

theorem agree_settle (h : s.Twins N t) (target : String) (id : Nat) :
    Agree (Twins N) (settle target id) (settle target id) s t fun a b _ _ => a.blind = b.blind := by
  have hinfo : Agree (Twins N) (infoOf target id) (infoOf target id) s t fun a b s' _ =>
      a.blind = b.blind ∧ id ≤ s'.ledger.registered := by
    refine Agree.bindGet ?_
    rcases h.storages id with ⟨hs, ht⟩ | ⟨st, u, hst, hu, htwin⟩
    · rw [hs, ht]
      exact Agree.throw h
    · rw [hst, hu]
      refine Agree.pure h ⟨?_, h.left.ids id st hst⟩
      simp only [Storage.info, VectorInfo.blind, htwin.shape, htwin.handles]
  refine hinfo.bind ?_
  rintro a b _ _ h ⟨hab, hid⟩
  exact Agree.bindModify (Agree.pure (h.bind target hid) hab)

/-- **Taking a builder's content**, in ways that make twins of it. -/
theorem agree_buildBy (h : s.Twins N t) {w w' : Work Nat} {f f' : Builder → Action (Nat × Builder)}
    (hw : ActsAs w f) (hw' : ActsAs w' f')
    (hworks : ∀ b : Builder, b.elements.Suits b.kind →
      Agree (Twins N) (f b) (f' b) s t fun p q _ _ => p = q ∧ p.2.elements.Suits p.2.kind)
    (name target : String) :
    Agree (Twins N) (buildBy w name target) (buildBy w' name target) s t fun a b _ _ =>
      a.blind = b.blind := by
  rw [buildBy_eq hw, buildBy_eq hw']
  refine (likeness_twins N).bindBuilder h name ?_
  intro before hsuits
  refine (hworks before hsuits).refusal.bind ?_
  rintro _ _ _ _ h (⟨e, rfl, rfl⟩ | ⟨⟨id, after⟩, _, rfl, rfl, rfl, hafter⟩)
  · exact Agree.pure h rfl
  · refine Agree.bindModify ((agree_settle (h.setBuilder name hafter) target id).bind ?_)
    intro a b _ _ h hab
    refine Agree.pure h ?_
    simp only [Reply.blind, hab]

theorem agree_buildTo (h : s.Twins N t) (name : String) (destination : Destination) (target : String) :
    Agree (Twins N) (buildTo name destination target) (buildTo name destination target) s t fun a b _ _ =>
      a.blind = b.blind := by
  cases destination with
  | configured => exact agree_buildBy h actsAs_build actsAs_build (fun _ hb => agree_build h hb) name target
  | host => exact agree_buildBy h actsAs_buildOnHost actsAs_buildOnHost (fun _ _ => agree_buildOnHost h) name target
  | runtime other =>
    simp only [buildTo, runtime, bind_assoc]
    refine Agree.bindGet ?_
    rw [h.runtimeNames]
    refine Agree.bindNamed h ?_
    intro i hi
    exact agree_buildBy h (actsAs_buildOnDevice i) (actsAs_buildOnDevice i)
      (fun _ hb => agree_buildOnDevice h hb (h.left.names other i hi)) name target

theorem same_newBuilder (h : s.Twins N t) (name : String) (kind : Kind) (capacity : Nat)
    (withValidity : Bool) : Same (Twins N) (newBuilder name kind capacity withValidity) s t := by
  refine Agree.bindAct h ?_
  intro b hcreate
  have hsuits : b.elements.Suits b.kind := by
    obtain ⟨-, rfl⟩ := Builder.create_eq_ok hcreate
    exact Elements.suits_empty _
  refine Agree.bindModify (Agree.bindModify (Same.pure ?_))
  exact ((twins_register h).dropBuilder name).setBuilder name hsuits

/-- **Every command agrees in twins**, but for what it tells of places. The bytes in
use on the default runtime are told only if that is far. -/
theorem agree_reply (h : s.Twins N t) {c : Command} (hc : c = .defaultRuntimeBytes → ¬ N 0) :
    Agree (Twins N) (reply c) (reply c) s t fun a b _ _ => a.blind = b.blind := by
  have hR := likeness_twins N
  -- Most commands answer with what they read.
  have hreply {β : Type} {x : Action β} (hx : Same (Twins N) x s t) (f : β → Reply) :
      Agree (Twins N) (do return f (← x)) (do return f (← x)) s t fun a b _ _ => a.blind = b.blind := by
    refine hx.bind ?_
    intro _ _ _ h
    exact Agree.pure h rfl
  cases c with
  | newBuilder b kind capacity withValidity =>
    exact (same_newBuilder h b kind capacity withValidity).mono fun _ _ _ _ _ hab => congrArg _ hab
  | append b a => exact (hR.append h b a).mono fun _ _ _ _ _ hab => congrArg _ hab
  | builder b =>
    refine hR.bindBuilder h b ?_
    intro _ _
    exact Agree.pure h rfl
  | closeBuilder b =>
    refine hR.bindBuilder h b ?_
    intro before hsuits
    refine Agree.bindModify (Agree.pure (h.setBuilder b ?_) rfl)
    exact Builder.suits_close hsuits
  | dropBuilder b =>
    refine Agree.bindGet ?_
    rw [h.builders]
    exact Agree.bindModify (Agree.pure (h.dropBuilder b) rfl)
  | build b destination target => exact agree_buildTo h b destination target
  | make m target =>
    refine (same_make h m).bind ?_
    intro id _ _ h
    refine (agree_settle h target id).bind ?_
    intro _ _ _ _ h hab
    exact Agree.pure h (congrArg Reply.vector hab)
  | isComparison op => exact Agree.pure h rfl
  | info v =>
    refine (agree_info h v).bind ?_
    intro _ _ _ _ h hab
    exact Agree.pure h (congrArg Reply.vector hab)
  | isNull v i => exact hreply ((hR.counterparts v).isNull h i) .flag
  | isNullExtended v i => exact hreply ((hR.counterparts v).isNullExtended h i) .flag
  | validityBits v => exact hreply ((hR.counterparts v).validityBits h) .count
  | element v f i => exact hreply ((hR.counterparts v).element h f i) (.element f)
  | text v i => exact hreply ((hR.counterparts v).text h i) .text
  | scalar v i => exact hreply ((hR.counterparts v).scalar h i) .scalar
  | scan v f start count => exact hreply ((hR.counterparts v).scan h f start count) (.elements f)
  | view v => exact hreply ((hR.counterparts v).view h) .view
  | dump v =>
    refine (hR.shape h v).bind ?_
    intro sh _ _ h
    refine ((hR.counterparts v).scalars h 0 sh.rows).bindSame ?_
    intro values _ _ h
    refine ((hR.counterparts v).view h).bindSame ?_
    intro raw _ _ h
    refine (agree_info h v).bind ?_
    intro _ _ _ _ h hab
    exact Agree.pure h (congrArg (Reply.dump values raw) hab)
  | close v =>
    refine (agree_storage h v).bind ?_
    intro _ _ _ _ h _
    exact Agree.bindModify (Agree.pure (h.unbind v true) rfl)
  | drop v =>
    refine Agree.bindGet ?_
    rw [h.vectors]
    exact Agree.bindModify (Agree.pure (h.unbind v false) rfl)
  | newRuntime name plan => exact Agree.bindModify (Agree.pure (h.newRuntime name plan rfl rfl) rfl)
  | runtimeUse name =>
    simp only [reply, runtime, bind_assoc]
    refine Agree.bindGet ?_
    rw [h.runtimeNames]
    refine Agree.bindNamed h ?_
    intro i _
    exact Agree.bindGet (Agree.pure h rfl)
  | defaultRuntimeBytes =>
    refine Agree.bindGet (Agree.pure h ?_)
    rw [h.runtimes 0 (hc rfl)]
  | ledger => exact Agree.bindGet (Agree.pure h (by rw [h.ledger]))
  | takeEvents =>
    refine Agree.modifyGet ?_ rfl
    refine h.alike ⟨rfl, rfl, rfl, Nat.le_refl _⟩ ⟨rfl, rfl, rfl, Nat.le_refl _⟩ ?_ rfl rfl
    exact ⟨h.config, h.ledger, h.builders, h.vectors, h.runtimeNames⟩
  | config => exact hreply (same_config h) .config
  | configure c =>
    refine Agree.modifyGet ?_ ?_
    · rw [h.config]
      cases hconfig : s.config with
      | some _ => exact h
      | none =>
        refine h.alike ⟨rfl, rfl, rfl, Nat.le_refl _⟩ ⟨rfl, rfl, rfl, Nat.le_refl _⟩ ?_ rfl rfl
        exact ⟨rfl, h.ledger, h.builders, h.vectors, h.runtimeNames⟩
    · rw [h.config]
      cases s.config <;> rfl

end Action

/-! ## Scripts -/

theorem Reply.blind_eq_stopped {r : Reply} {stop : Stop} :
    r.blind = .stopped stop ↔ r = .stopped stop := by
  cases r <;> simp [Reply.blind]

namespace Session

variable {N : Nat → Prop} {s t : Session}

/-- **A command** leads from twins to twins, and is answered alike. -/
theorem Twins.step (h : s.Twins N t) {c : Command} (hc : c = .defaultRuntimeBytes → ¬ N 0) :
    (s.step c).1.blind = (t.step c).1.blind ∧ (s.step c).2.Twins N (t.step c).2 := by
  rw [step_eq_exec, step_eq_exec]
  cases Action.agree_reply h hc with
  | stops hx hy h =>
    rw [hx, hy]
    exact ⟨rfl, h⟩
  | answers hx hy h hab =>
    rw [hx, hy]
    exact ⟨hab, h⟩

/-- **A script** leads from twins to twins, and is answered alike. -/
theorem Twins.run (h : s.Twins N t) {script : List Command}
    (hscript : ∀ c ∈ script, c = .defaultRuntimeBytes → ¬ N 0) :
    (s.run script).1.map Reply.blind = (t.run script).1.map Reply.blind ∧
      (s.run script).2.Twins N (t.run script).2 := by
  induction script generalizing s t with
  | nil => exact ⟨rfl, h⟩
  | cons c rest ih =>
    obtain ⟨hreply, hstep⟩ := h.step (hscript c (by simp))
    have hfault : (s.step c).1 = .stopped (.fault .outOfBounds) ↔
        (t.step c).1 = .stopped (.fault .outOfBounds) := by
      rw [← Reply.blind_eq_stopped, hreply, Reply.blind_eq_stopped]
    by_cases hs : (s.step c).1 = .stopped (.fault .outOfBounds)
    · rw [run_cons_of_fault hs, run_cons_of_fault (hfault.mp hs)]
      exact ⟨rfl, hstep⟩
    · rw [run_cons_of_ne hs, run_cons_of_ne (mt hfault.mpr hs)]
      obtain ⟨hreplies, hend⟩ := ih hstep fun d hd => hscript d (by simp [hd])
      exact ⟨by rw [List.map_cons, List.map_cons, hreply, hreplies], hend⟩

end Session

end Columnar
