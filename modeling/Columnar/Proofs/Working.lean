/-
Work on a builder, seen as an action that gives the builder back.

Work threads a builder through a session, and what it did to the builder stays
done when it stops. `Work.on` forgets the builder of work that stopped; this is
an action, and each kind of work has its equation as one (`on_extend`,
`on_buildOnHost`, `on_buildOnDevice`). Nothing is forgotten in fact: work that
stops leaves the builder as it was, unless it reached out of bounds
(`Work.Careful`). A column is taken in only after all that can be refused, and
what is taken out of a builder is put back where it cannot be sent to a device
(`careful_buildOnDevice`). So work on the builder under a name is an action on
that builder which leaves it alone when it is refused (`ActsAs`,
`refusal_atBuilder`), and a recipe one that gives its builder up in the end
(`assemble_eq`).
-/
import Columnar.Proofs.Acting
import Columnar.Proofs.Entries
import Columnar.Script

namespace Columnar

variable {α β : Type}

/-! ## Work run step by step -/

namespace Work

/-- The answer of work, or why it stopped, and the builder and the session that it leaves. -/
def exec (w : Work α) (b : Builder) (s : Session) : (Except Stop α × Builder) × Session := w.run b s

theorem exec_action (x : Action α) (b : Builder) (s : Session) :
    (liftM x : Work α).exec b s = (((x.exec s).1, b), (x.exec s).2) := rfl

/-- Work that is run by an action on the session. -/
theorem exec_run (w : Work α) (b : Builder) (s : Session) :
    (liftM (w.run b) : Action (Except Stop α × Builder)).exec s = (.ok (w.exec b s).1, (w.exec b s).2) := rfl

theorem exec_edit (e : Edit Builder α) (b : Builder) (s : Session) :
    (liftM e : Work α).exec b s =
      match e.exec b with
      | (.ok a, b') => ((.ok a, b'), s)
      | (.error fault, b') => ((.error (.fault fault), b'), s) := rfl

theorem exec_bind (w : Work α) (f : α → Work β) (b : Builder) (s : Session) :
    (w >>= f).exec b s =
      match w.exec b s with
      | ((.ok a, b'), s') => (f a).exec b' s'
      | ((.error stop, b'), s') => ((.error stop, b'), s') := by
  have h : (w >>= f).exec b s =
      (ExceptT.bindCont f (w.exec b s).1.1 : StateT Builder (StateM Session) (Except Stop β))
        (w.exec b s).1.2 (w.exec b s).2 := rfl
  rw [h]
  rcases w.exec b s with ⟨⟨_ | a, b'⟩, s'⟩ <;> rfl

/-! ## Work as an action -/

/-- Work on a builder as an action that gives the builder back with the answer. -/
def on (w : Work α) (b : Builder) : Action (α × Builder) :=
  ExceptT.mk fun s =>
    match w.exec b s with
    | ((.ok a, b'), s') => (.ok (a, b'), s')
    | ((.error stop, _), s') => (.error stop, s')

theorem exec_on (w : Work α) (b : Builder) (s : Session) :
    (w.on b).exec s =
      match w.exec b s with
      | ((.ok a, b'), s') => (.ok (a, b'), s')
      | ((.error stop, _), s') => (.error stop, s') := rfl

theorem on_bind (w : Work α) (f : α → Work β) (b : Builder) :
    (w >>= f).on b = w.on b >>= fun p => (f p.1).on p.2 := by
  funext s
  show ((w >>= f).on b).exec s = (w.on b >>= fun p => (f p.1).on p.2).exec s
  rw [exec_on, exec_bind, Action.exec_bind, exec_on]
  rcases w.exec b s with ⟨⟨_ | a, b'⟩, s'⟩ <;> rfl

theorem on_action (x : Action α) (b : Builder) :
    (liftM x : Work α).on b = x >>= fun a => pure (a, b) := by
  funext s
  show ((liftM x : Work α).on b).exec s = (x >>= fun a => pure (a, b)).exec s
  rw [exec_on, exec_action, Action.exec_bind]
  rcases x.exec s with ⟨_ | a, s'⟩ <;> rfl

theorem on_edit (e : Edit Builder Unit) (b : Builder) :
    (liftM e : Work Unit).on b = (e.outcome b).act >>= fun b' => pure ((), b') := by
  funext s
  show ((liftM e : Work Unit).on b).exec s = ((e.outcome b).act >>= fun b' => pure ((), b')).exec s
  rw [exec_on, exec_edit, Edit.outcome_eq, Action.exec_bind, Action.exec_act]
  rcases e.exec b with ⟨_ | ⟨⟩, b'⟩ <;> rfl

theorem on_check (require : Builder → Outcome Unit) (b : Builder) :
    (liftM (Edit.check require) : Work Unit).on b = (require b).act >>= fun _ => pure ((), b) := by
  have h := Edit.exec_check require b
  rw [on_edit, Edit.outcome_eq, h]
  cases require b <;> rfl

/-! ## What is left of a builder -/

/-- That work which stops leaves the builder as it was, unless it reached out of bounds. -/
def Careful (w : Work α) : Prop := ∀ b s stop b' s',
  w.exec b s = ((.error stop, b'), s') → stop ≠ .fault .outOfBounds → b' = b

/-- That work leaves the builder as it is. -/
def Sparing (w : Work α) : Prop := ∀ b s, (w.exec b s).1.2 = b

theorem sparing_action (x : Action α) : (liftM x : Work α).Sparing := fun _ _ => rfl

theorem sparing_check (require : Builder → Outcome Unit) :
    (liftM (Edit.check require) : Work Unit).Sparing := by
  intro b s
  rw [exec_edit, Edit.exec_check]
  cases require b <;> rfl

theorem careful_edit {e : Edit Builder α} (he : e.Careful) : (liftM e : Work α).Careful := by
  intro b s stop b' s' h hne
  rw [exec_edit] at h
  rcases hx : e.exec b with ⟨fault | a, after⟩
  · rw [hx] at h
    cases h
    cases fault with
    | outOfBounds => exact absurd rfl hne
    | refused error => exact he b _ error hx
  · rw [hx] at h
    cases h

/-- Work that leaves the builder as it is may come first. -/
theorem Careful.bind {w : Work α} {f : α → Work β} (hw : w.Sparing) (hf : ∀ a, (f a).Careful) :
    (w >>= f).Careful := by
  intro b s stop b' s' h hne
  have hkept := hw b s
  rw [exec_bind] at h
  rcases hx : w.exec b s with ⟨⟨_ | a, after⟩, t⟩ <;> rw [hx] at h hkept
  · cases h
    exact hkept
  · exact (hf a after t stop b' s' h hne).trans hkept

end Work

namespace Action

/-! ## Adding to a builder -/

/-- A builder with rows added to it. -/
def extended (b : Builder) : Addition → Action Builder
  | .rows r => (b.append r).act
  | .vector v => do
    let source ← shape v
    (b.requireColumn source).act
    (b.appendColumn source (← materialize v)).act

/-- A builder with the rows of all additions added to it. -/
def extendedAll (b : Builder) : List Addition → Action Builder
  | [] => return b
  | a :: rest => do extendedAll (← extended b a) rest

theorem on_extend (a : Addition) (b : Builder) :
    (Work.extend a).on b = extended b a >>= fun b' => pure ((), b') := by
  cases a with
  | rows r => exact Work.on_edit _ b
  | vector v =>
    simp only [Work.extend, extended, Work.on_bind, Work.on_action, Work.on_check, bind_assoc, pure_bind]
    refine congrArg _ (funext fun source => ?_)
    cases h : b.requireColumn source with
    | error fault => rfl
    | ok =>
      refine congrArg _ (funext fun _ => congrArg _ (funext fun p => ?_))
      rw [Work.on_edit, Builder.appendColumn_eq, h]
      rfl

theorem on_extendAll (as : List Addition) (b : Builder) :
    (Work.extendAll as).on b = extendedAll b as >>= fun b' => pure ((), b') := by
  induction as generalizing b with
  | nil => rfl
  | cons a as ih =>
    simp only [Work.extendAll, extendedAll, Work.on_bind, on_extend, bind_assoc, pure_bind, ih]

/-- **What is added to a builder**, or else the builder as it was. -/
theorem careful_extend (a : Addition) : (Work.extend a).Careful := by
  cases a with
  | rows r => exact Work.careful_edit (Builder.careful_addRows r)
  | vector v =>
    exact .bind (Work.sparing_action _) fun source => .bind (Work.sparing_check _) fun _ =>
      .bind (Work.sparing_action _) fun p => Work.careful_edit (Builder.careful_writeColumn source p)

/-! ## Building -/

/-- A vector on the host of what a builder holds, and the builder after that. -/
def buildOnHost (b : Builder) : Action (Nat × Builder) := do
  b.requireOpen.act
  modify (·.log (.builtOnHost b.kind b.rows b.nulls))
  return (← addColumn b.column, b.finish)

/-- A vector on a runtime of what a builder holds, and the builder after that. -/
def buildOnDevice (b : Builder) (runtime : Nat) : Action (Nat × Builder) := do
  b.requireOpen.act
  match ← send runtime b.payload.buffers with
  | .error e => throw (.fault (.refused (.device e)))
  | .ok allocations =>
    modify (·.log (.builtOnDevice b.kind b.rows b.nulls))
    return (← addStorage b.shape (.device ⟨runtime, allocations⟩), b.finish)

/-- A vector where the configuration wants it. -/
def build (b : Builder) : Action (Nat × Builder) := do
  if (← config).uploadOnBuild then buildOnDevice b 0 else buildOnHost b

theorem exec_work_buildOnHost (b : Builder) (s : Session) :
    Work.buildOnHost.exec b s =
      match b.requireOpen with
      | .error fault => ((.error (.fault fault), b), s)
      | .ok () => ((.ok (s.ledger.registered + 1), b.finish),
          ((s.log (.builtOnHost b.kind b.rows b.nulls)).addStorage b.shape (.host b.payload)).2) := by
  rw [Work.buildOnHost, Work.exec_bind, Work.exec_edit, Edit.exec_check]
  cases b.requireOpen <;> rfl

theorem on_buildOnHost (b : Builder) : Work.buildOnHost.on b = buildOnHost b := by
  funext s
  show (Work.buildOnHost.on b).exec s = (buildOnHost b).exec s
  rw [Work.exec_on, exec_work_buildOnHost, buildOnHost, exec_bind, exec_act]
  cases b.requireOpen <;> rfl

theorem careful_buildOnHost : Work.buildOnHost.Careful := by
  intro b s stop b' s' h _
  rw [exec_work_buildOnHost] at h
  cases hopen : b.requireOpen <;> rw [hopen] at h <;> cases h
  rfl

/-- **Building on a device**: what is taken out of the builder is put back where it cannot be sent. -/
theorem exec_work_buildOnDevice (i : Nat) (b : Builder) (s : Session) :
    (Work.buildOnDevice i).exec b s =
      match b.requireOpen with
      | .error fault => ((.error (.fault fault), b), s)
      | .ok () =>
        match (s.runtime i).uploadAll b.payload.buffers with
        | (.error e, r) => ((.error (.fault (.refused (.device e))), b), s.setRuntime i r)
        | (.ok allocations, r) => ((.ok (s.ledger.registered + 1), b.finish),
            (((s.setRuntime i r).log (.builtOnDevice b.kind b.rows b.nulls)).addStorage b.shape
              (.device ⟨i, allocations⟩)).2) := by
  rw [Work.buildOnDevice, Work.exec_bind, Work.exec_edit, Edit.exec_check]
  cases b.requireOpen with
  | error fault => rfl
  | ok =>
    have htake : (liftM Builder.takeContent : Work Content).exec b s =
        ((.ok ⟨b.elements, b.validity⟩, b.emptied), s) := rfl
    have hsend : (liftM (send i (Content.payload ⟨b.elements, b.validity⟩).buffers) :
        Work (Except DeviceError (List Allocation))).exec b.emptied s =
        ((.ok ((s.runtime i).uploadAll b.payload.buffers).1, b.emptied),
          s.setRuntime i ((s.runtime i).uploadAll b.payload.buffers).2) := rfl
    simp only [Work.exec_bind, htake, hsend]
    rcases (s.runtime i).uploadAll b.payload.buffers with ⟨_ | allocations, r⟩ <;> rfl

theorem on_buildOnDevice (i : Nat) (b : Builder) : (Work.buildOnDevice i).on b = buildOnDevice b i := by
  funext s
  show ((Work.buildOnDevice i).on b).exec s = (buildOnDevice b i).exec s
  have hsend : (send i b.payload.buffers).exec s =
      (.ok ((s.runtime i).uploadAll b.payload.buffers).1,
        s.setRuntime i ((s.runtime i).uploadAll b.payload.buffers).2) := rfl
  rw [Work.exec_on, exec_work_buildOnDevice, buildOnDevice, exec_bind, exec_act]
  cases b.requireOpen with
  | error fault => rfl
  | ok =>
    simp only [exec_bind, hsend]
    rcases (s.runtime i).uploadAll b.payload.buffers with ⟨_ | allocations, r⟩ <;> rfl

/-- **A builder that cannot be sent** to a device is as it was. -/
theorem careful_buildOnDevice (i : Nat) : (Work.buildOnDevice i).Careful := by
  intro b s stop b' s' h _
  rw [exec_work_buildOnDevice] at h
  cases hopen : b.requireOpen with
  | error fault =>
    rw [hopen] at h
    cases h
    rfl
  | ok =>
    simp only [hopen] at h
    rcases hup : (s.runtime i).uploadAll b.payload.buffers with ⟨_ | allocations, r⟩ <;>
      rw [hup] at h <;> cases h
    rfl

theorem on_build (b : Builder) : Work.build.on b = build b := by
  rw [Work.build, Work.on_bind, Work.on_action, bind_assoc, build]
  refine congrArg _ (funext fun c => ?_)
  rw [pure_bind]
  split
  · exact on_buildOnDevice 0 b
  · exact on_buildOnHost b

theorem careful_build : Work.build.Careful := by
  refine .bind (Work.sparing_action _) fun c => ?_
  split
  · exact careful_buildOnDevice 0
  · exact careful_buildOnHost

/-! ## What work leaves alone -/

theorem builders_fetch (s : Session) (id : Nat) (st : Storage) (d : DeviceCopy) :
    ((fetch id st d).exec s).2.builders = s.builders := by
  simp only [fetch, exec_bind, exec_get, exec_modify]
  split <;> rfl

theorem shape_exec (v : String) (s : Session) : ((shape v).exec s).2 = s := by
  simp only [shape, storage, exec_bind, exec_get, exec_named]
  cases s.storage? v <;> rfl

theorem builders_materialize (s : Session) (v : String) :
    ((materialize v).exec s).2.builders = s.builders := by
  simp only [materialize, storage, exec_bind, exec_get, exec_named]
  cases s.storage? v with
  | none => rfl
  | some p =>
    obtain ⟨id, st⟩ := p
    simp only
    cases st.place with
    | host p => rfl
    | both p d => rfl
    | device d => exact builders_fetch _ id st d

theorem exec_extended_vector {v : String} {sh : Shape} {b : Builder} {s : Session}
    (hv : (shape v).exec s = (.ok sh, s)) :
    (extended b (.vector v)).exec s =
      match b.requireColumn sh with
      | .ok () => (materialize v >>= fun p => (b.appendColumn sh p).act).exec s
      | .error f => (.error (.fault f), s) := by
  simp only [extended, exec_bind, hv, exec_act]
  cases b.requireColumn sh <;> rfl

theorem builders_extended (b : Builder) (a : Addition) (s : Session) :
    ((extended b a).exec s).2.builders = s.builders := by
  cases a with
  | rows r =>
    simp only [extended, exec_act]
  | vector v =>
    have hsame := shape_exec v s
    rcases hv : (shape v).exec s with ⟨stop | sh, s'⟩
    · rw [hv] at hsame
      simp only [extended, exec_bind, hv, hsame]
    · rw [hv] at hsame
      obtain rfl : s' = s := hsame
      have hbrought := builders_materialize s' v
      rw [exec_extended_vector hv]
      cases b.requireColumn sh with
      | error f => rfl
      | ok u =>
        simp only [exec_bind]
        rcases hp : (materialize v).exec s' with ⟨stop | p, s''⟩
        · rwa [hp] at hbrought
        · rw [hp] at hbrought
          simpa only [exec_act] using hbrought

theorem builders_buildOnHost (b : Builder) (s : Session) :
    ((buildOnHost b).exec s).2.builders = s.builders := by
  rw [← on_buildOnHost, Work.exec_on, exec_work_buildOnHost]
  cases b.requireOpen <;> rfl

theorem builders_buildOnDevice (b : Builder) (i : Nat) (s : Session) :
    ((buildOnDevice b i).exec s).2.builders = s.builders := by
  rw [← on_buildOnDevice, Work.exec_on, exec_work_buildOnDevice]
  cases b.requireOpen with
  | error fault => rfl
  | ok =>
    simp only
    rcases (s.runtime i).uploadAll b.payload.buffers with ⟨_ | allocations, r⟩ <;> rfl

/-- A build goes where the configuration tells, which is settled by then. -/
theorem exec_build (b : Builder) (s : Session) : (build b).exec s =
    (if s.settledConfig.uploadOnBuild then buildOnDevice b 0 else buildOnHost b).exec
      { s with config := some s.settledConfig } := rfl

theorem builders_build (b : Builder) (s : Session) : ((build b).exec s).2.builders = s.builders := by
  rw [exec_build]
  split
  · exact builders_buildOnDevice b 0 _
  · exact builders_buildOnHost b _

/-! ## Work on the builder under a name -/

/-- That work on a builder is an action that gives the builder back: where it is refused, the
builder is as it was, and it touches no builder of the session. -/
structure ActsAs (w : Work α) (f : Builder → Action (α × Builder)) : Prop where
  on : ∀ b, w.on b = f b
  careful : w.Careful
  builders : ∀ b s, ((f b).exec s).2.builders = s.builders

theorem actsAs_extend (a : Addition) :
    ActsAs (Work.extend a) fun b => extended b a >>= fun b' => pure ((), b') where
  on b := on_extend a b
  careful := careful_extend a
  builders b s := by
    have h := builders_extended b a s
    rw [exec_bind]
    rcases hx : (extended b a).exec s with ⟨_ | b', s'⟩ <;> rw [hx] at h <;> exact h

theorem actsAs_buildOnHost : ActsAs Work.buildOnHost buildOnHost :=
  ⟨on_buildOnHost, careful_buildOnHost, builders_buildOnHost⟩

theorem actsAs_buildOnDevice (i : Nat) : ActsAs (Work.buildOnDevice i) (buildOnDevice · i) :=
  ⟨on_buildOnDevice i, careful_buildOnDevice i, fun b s => builders_buildOnDevice b i s⟩

theorem actsAs_build : ActsAs Work.build build := ⟨on_build, careful_build, builders_build⟩

variable {s : Session} {name : String} {b : Builder}

theorem exec_builder (hb : s.builders.find? name = some b) : (builder name).exec s = (.ok b, s) := by
  simp only [builder, exec_bind, exec_get, hb, exec_named]

theorem exec_builder_none (h : s.builders.find? name = none) :
    (builder name).exec s = (.error (.noSuchObject name), s) := by
  simp only [builder, exec_bind, exec_get, h, exec_named]

theorem exec_refusal (x : Action α) (s : Session) :
    (refusal x).exec s =
      match x.exec s with
      | (.ok a, s') => (.ok (.ok a), s')
      | (.error (.fault (.refused e)), s') => (.ok (.error e), s')
      | (.error stop, s') => (.error stop, s') := by
  unfold refusal
  rw [exec_tryCatch, exec_bind]
  rcases x.exec s with ⟨stop | a, s'⟩
  · rcases stop with (⟨e⟩ | _) | name <;> rfl
  · rfl

/-- A builder that is put where it is already changes nothing. -/
theorem setBuilder_eq_self (hb : s.builders.find? name = some b) : s.setBuilder name b = s := by
  rw [Session.setBuilder, Table.insert_eq_self hb]

/-- Work on the builder under a name, started on the builder that is there. -/
theorem exec_atBuilder_run (w : Work α) (hb : s.builders.find? name = some b) {x : Except Stop α}
    {after : Builder} {s' : Session} (hx : w.exec b s = ((x, after), s')) :
    (∀ a, x = .ok a → (atBuilder name w).exec s = (.ok a, s'.setBuilder name after)) ∧
    (∀ stop, x = .error stop → stop ≠ .fault .outOfBounds →
      (atBuilder name w).exec s = (.error stop, s'.setBuilder name after)) ∧
    (x = .error (.fault .outOfBounds) → (atBuilder name w).exec s = (.error (.fault .outOfBounds), s')) := by
  simp only [atBuilder, exec_bind, exec_builder hb, Work.exec_run, hx]
  refine ⟨?_, ?_, ?_⟩
  · rintro a rfl
    rfl
  · rintro ((e | _) | other) rfl hstop
    · rfl
    · exact absurd rfl hstop
    · rfl
  · rintro rfl
    rfl

/-- **Work on the builder under a name** changes it where it has an answer, and where it has none
leaves every builder as it was. -/
theorem exec_atBuilder {w : Work α} {f : Builder → Action (α × Builder)} (h : ActsAs w f)
    (hb : s.builders.find? name = some b) :
    (atBuilder name w).exec s =
      match (f b).exec s with
      | (.ok (a, after), s') => (.ok a, s'.setBuilder name after)
      | (.error stop, s') => (.error stop, s') := by
  have hbuilders := h.builders b s
  rw [← h.on, Work.exec_on] at hbuilders ⊢
  rcases hx : w.exec b s with ⟨⟨stop | a, after⟩, s'⟩
  · rw [hx] at hbuilders
    obtain ⟨-, hrefused, hfault⟩ := exec_atBuilder_run w hb hx
    by_cases hstop : stop = .fault .outOfBounds
    · subst hstop
      exact hfault rfl
    · obtain rfl := h.careful b s _ after s' hx hstop
      have hkept := setBuilder_eq_self ((congrArg (·.find? name) hbuilders).trans hb)
      exact (hrefused _ rfl hstop).trans (congrArg _ hkept)
  · exact (exec_atBuilder_run w hb hx).1 a rfl

theorem exec_atBuilder_none (w : Work α) (h : s.builders.find? name = none) :
    (atBuilder name w).exec s = (.error (.noSuchObject name), s) := by
  rw [atBuilder, exec_bind, exec_builder_none h]

/-- The builder that is under a name once it has been put there. -/
theorem exec_builder_setBuilder (s : Session) (name : String) (b : Builder) :
    (builder name).exec (s.setBuilder name b) = (.ok b, s.setBuilder name b) :=
  exec_builder (Table.find?_insert_self _ _ _)

/-- **Work on the builder under a name**, whose refusal is answered with the builder and the error,
and whose answer with what comes next for the builder that is left. -/
theorem refusal_atBuilder {w : Work α} {f : Builder → Action (α × Builder)} (h : ActsAs w f) (name : String)
    (next : α → Builder → Action Reply) :
    (do
      match ← refusal (atBuilder name w) with
      | .error e => return .builder (← builder name) (some e)
      | .ok a => next a (← builder name) : Action Reply) = (do
      let before ← builder name
      match ← refusal (f before) with
      | .error e => return .builder before (some e)
      | .ok (a, after) =>
        modify (·.setBuilder name after)
        next a after) := by
  funext s
  refine Eq.trans (b := Action.exec _ s) rfl (Eq.trans ?_ (b := Action.exec _ s) rfl)
  rw [exec_bind, exec_bind, exec_refusal]
  cases hb : s.builders.find? name with
  | none => simp only [exec_atBuilder_none _ hb, exec_builder_none hb]
  | some b =>
    have hkept := h.builders b s
    simp only [exec_atBuilder h hb, exec_builder hb, exec_bind, exec_refusal]
    rcases hx : (f b).exec s with ⟨((e | _) | other) | ⟨a, after⟩, s'⟩
    · rw [hx] at hkept
      simp only [exec_bind, exec_builder ((congrArg (·.find? name) hkept).trans hb), exec_pure]
    · rfl
    · rfl
    · simp only [exec_bind, exec_builder_setBuilder, exec_modify]

/-- **Adding to the builder under a name** replaces it by the one that it becomes. -/
theorem addTo_eq (name : String) (a : Addition) :
    addTo name a = do
      let before ← builder name
      match ← refusal (extended before a) with
      | .error e => return .builder before (some e)
      | .ok after =>
        modify (·.setBuilder name after)
        return .builder after none := by
  have hanswer := refusal_atBuilder (actsAs_extend a) name fun _ after => pure (.builder after none)
  refine Eq.trans ?_ (hanswer.trans ?_)
  · refine bind_congr fun answer => ?_
    cases answer <;> rfl
  · refine bind_congr fun before => funext fun s => ?_
    refine Eq.trans (b := Action.exec _ s) rfl (Eq.trans ?_ (b := Action.exec _ s) rfl)
    simp only [exec_bind, exec_refusal]
    rcases (extended before a).exec s with ⟨((e | _) | other) | after, s'⟩ <;> rfl

/-- **Adding to a builder** puts the longer builder in its place, and leaves it there
if the addition is refused. -/
theorem exec_addTo (hb : s.builders.find? name = some b) (a : Addition) :
    (addTo name a).exec s =
      match (extended b a).exec s with
      | (.ok b', s') => (.ok (.builder b' none), s'.setBuilder name b')
      | (.error (.fault (.refused e)), s') => (.ok (.builder b (some e)), s')
      | (.error stop, s') => (.error stop, s') := by
  rw [addTo_eq, exec_bind, exec_builder hb]
  simp only [exec_bind, exec_refusal]
  rcases (extended b a).exec s with ⟨stop | b', s'⟩
  · rcases stop with (⟨e⟩ | _) | name <;> rfl
  · rfl

/-- **Building from the builder under a name** replaces it by what is left of it. -/
theorem buildBy_eq {w : Work Nat} {f : Builder → Action (Nat × Builder)} (h : ActsAs w f)
    (name target : String) :
    buildBy w name target = do
      let before ← builder name
      match ← refusal (f before) with
      | .error e => return .builder before (some e)
      | .ok (id, after) =>
        modify (·.setBuilder name after)
        return .built (← settle target id) after := by
  have hanswer := refusal_atBuilder h name fun id after => do return .built (← settle target id) after
  refine Eq.trans ?_ (hanswer.trans ?_)
  · refine bind_congr fun answer => ?_
    cases answer <;> rfl
  · refine bind_congr fun before => bind_congr fun answer => ?_
    cases answer <;> rfl

/-! ## Recipes -/

theorem givenUp_close (b : Builder) : b.close.givenUp = true := by
  unfold Builder.close
  split <;> simp [Builder.givenUp, *]

/-- A builder that a vector was made of is given up. -/
theorem givenUp_of_build {b : Builder} {p : Nat × Builder} {s s' : Session}
    (h : (build b).exec s = (.ok p, s')) : p.2.givenUp = true := by
  have hfinish : b.finish.givenUp = true := rfl
  rw [exec_build] at h
  split at h
  · rw [← on_buildOnDevice, Work.exec_on, exec_work_buildOnDevice] at h
    cases hopen : b.requireOpen with
    | error fault =>
      rw [hopen] at h
      cases h
    | ok =>
      simp only [hopen] at h
      split at h
      next hx =>
        split at hx <;> cases hx
        cases h
        exact hfinish
      next => cases h
  · rw [← on_buildOnHost, Work.exec_on, exec_work_buildOnHost] at h
    cases hopen : b.requireOpen <;> rw [hopen] at h <;> cases h
    exact hfinish

/-- **A recipe** is the building of what it adds to a new builder, which is given up in the end,
also where nothing comes of it. -/
theorem assemble_eq (r : Recipe) :
    assemble r = (do
      let b ← (Builder.create r.kind r.capacity false).act
      modify fun s => { s with ledger := s.ledger.register }
      let giveUp : Action Unit := modify (·.reclaim .builder true)
      try
        let (id, _) ← build (← extendedAll b r.additions)
        giveUp
        pure id
      catch stop =>
        giveUp
        throw stop) := by
  unfold assemble
  refine congrArg _ (funext fun b => congrArg _ (funext fun _ => funext fun s => ?_))
  have hon : (Work.extendAll r.additions >>= fun _ => Work.build).on b =
      extendedAll b r.additions >>= build := by
    simp only [Work.on_bind, on_extendAll, bind_assoc, pure_bind, on_build]
  have hexec := Work.exec_on (Work.extendAll r.additions >>= fun _ => Work.build) b s
  rw [hon, exec_bind] at hexec
  refine Eq.trans (b := Action.exec _ s) rfl (Eq.trans ?_ (b := Action.exec _ s) rfl)
  rw [exec_bind, exec_tryCatch, exec_bind, Work.exec_run]
  generalize (Work.extendAll r.additions >>= fun _ => Work.build).exec b s = worked at hexec ⊢
  rcases hadd : (extendedAll b r.additions).exec s with ⟨stop | b', s₁⟩
  · rw [hadd] at hexec
    rcases worked with ⟨⟨stop' | id, after⟩, s₂⟩ <;> cases hexec
    simp only [exec_bind, exec_modify, exec_throw, givenUp_close]
  · simp only [hadd] at hexec
    rcases hbuild : (build b').exec s₁ with ⟨stop | p, s₂⟩
    all_goals
      rw [hbuild] at hexec
      rcases worked with ⟨⟨stop' | id, after⟩, s₃⟩ <;> cases hexec
    · simp only [exec_bind, hbuild, exec_modify, exec_throw, givenUp_close]
    · simp only [exec_bind, hbuild, exec_modify, exec_pure, givenUp_of_build hbuild]

end Action

end Columnar
