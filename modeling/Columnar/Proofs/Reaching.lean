/-
Every session that commands lead to.

`Session.Reachable` is any session that commands within limits lead to, from an
empty one: whatever the commands are, whether they succeed or are refused. A
script is such a run of commands (`Reachable.run`). Each command keeps an
invariant of columns and builders (`Action.keeps_reply`), so the invariant holds
of all that a reachable session has (`Reachable.sound`).
-/
import Columnar.Proofs.Reading
import Columnar.Script

namespace Columnar

namespace Session

variable {C : Column → Prop} {B : Builder → Prop} {s : Session}

/-! ## Names -/

theorem Sound.setBuilder (hs : s.Sound C B) (name : String) {b : Builder} (hb : B b) :
    (s.setBuilder name b).Sound C B where
  coherent := hs.coherent.alike ⟨rfl, rfl, rfl, Nat.le_refl _⟩
  columns := hs.columns
  builders other b' hfind := by
    rcases Table.of_find?_insert hfind with ⟨-, rfl⟩ | hfind
    · exact hb
    · exact hs.builders other b' hfind

theorem Sound.dropBuilder (hs : s.Sound C B) (name : String) : (s.dropBuilder name).Sound C B := by
  unfold Session.dropBuilder
  split
  next => exact hs
  next b hb =>
    have halike : s.Alike { s with builders := s.builders.erase name } := ⟨rfl, rfl, rfl, Nat.le_refl _⟩
    refine Sound.alike ?_ (alike_reclaim _ _ _) (builders_reclaim _ _ _)
    exact ⟨hs.coherent.alike halike, hs.columns, fun other b' hfind =>
      hs.builders other b' (Table.find?_erase_eq_some.mp hfind).2⟩

theorem Sound.unbind (hs : s.Sound C B) (name : String) (released : Bool) :
    (s.unbind name released).Sound C B := by
  unfold Session.unbind
  split
  next => exact hs
  next id _ =>
    have halike : s.Alike { s with vectors := s.vectors.erase name } := ⟨rfl, rfl, rfl, Nat.le_refl _⟩
    obtain ⟨hcoherent, hcolumns⟩ := (hs.coherent.alike halike).releaseHandle id released
    refine ⟨hcoherent, fun j c hc => hs.columns j c (hcolumns j c hc), fun other b hfind => ?_⟩
    rw [builders_releaseHandle] at hfind
    exact hs.builders other b hfind

theorem Sound.bind (hs : s.Sound C B) (name : String) (id : Nat) : (s.bind name id).Sound C B := by
  have hs' := hs.unbind name false
  exact ⟨hs'.coherent.alike ⟨rfl, rfl, rfl, Nat.le_refl _⟩, hs'.columns, hs'.builders⟩

theorem Sound.newRuntime (hs : s.Sound C B) (name : String) {plan : FaultPlan} (hplan : plan.Faithful)
    {s' : Session} (hs' : s' = { s.setRuntime s.runtimes.size { plan := plan } with
      runtimeNames := s.runtimeNames.insert name s.runtimes.size }) : s'.Sound C B := by
  obtain ⟨hcoherent, hcolumns⟩ := hs.coherent.newRuntime name hplan hs'
  have hbuilders : s'.builders = s.builders := by
    rw [hs']
    rfl
  exact hs.of_columns hcoherent hcolumns hbuilders

end Session

/-! ## Commands -/

/-- That all that a command brings in is within limits: raw parts, and new runtimes, which bring
bytes back as they are. -/
def Command.Within (T : Limits) : Command → Prop
  | .make (.ofParts _ _ _ _) _ => T = .unlimited
  | .newRuntime _ plan => plan.Faithful
  | _ => True

open Session

namespace Action

variable {T : Limits} {C : Column → Prop} {B : Builder → Prop} {s : Session} {α : Type}

theorem safe_refusal {Q : α → Session → Prop} {x : Action α} (hx : Safe (Sound C B) x s Q) :
    Safe (Sound C B) (refusal x) s fun r s' => ∀ a, r = .ok a → Q a s' := by
  refine Safe.tryCatch (hx.bind ?_) ?_
  · intro a s' hs' _ hQ
    exact .pure hs' (by rintro _ ⟨⟩; exact hQ)
  · intro stop s' hs' _
    split
    · exact .pure hs' (by rintro _ ⟨⟩)
    · exact .throw hs'

theorem safe_builder (hs : s.Sound C B) (name : String) :
    Safe (Sound C B) (builder name) s fun b s' => s = s' ∧ s.builders.find? name = some b := by
  refine (Safe.get hs).bindSame ?_
  intro _ hanswer
  subst hanswer
  exact Safe.named hs

theorem safe_runtime (hs : s.Sound C B) (name : String) :
    Safe (Sound C B) (runtime name) s fun i s' => s = s' ∧ i < s.runtimes.size := by
  refine (Safe.get hs).bindSame ?_
  intro _ hanswer
  subst hanswer
  refine (Safe.named hs).mono ?_
  intro i _ hs _ hanswer
  obtain ⟨rfl, hi⟩ := hanswer
  exact ⟨rfl, hs.coherent.names name i hi⟩

theorem keeps_settle (hs : s.Sound C B) (target : String) (id : Nat) :
    Keeps (Sound C B) (settle target id) s fun _ _ => True := by
  have hinfo : Safe (Sound C B) (infoOf target id) s fun _ _ => True := by
    refine (Safe.get hs).bindSame ?_
    intro _ hanswer
    subst hanswer
    refine (Safe.named hs).bindSame ?_
    intro st _
    exact .pure hs trivial
  refine hinfo.bindKeeps ?_
  intro info s' hs' _ _
  refine (Keeps.modify (hs'.bind target id)).bind ?_
  intro _ s₂ hs₂ _
  exact .pure hs₂ trivial

/-- **Making a vector** is safe, within limits. -/
theorem safe_make (h : Invariant T C B) (hs : s.Sound C B) {m : Making} {target : String}
    (hm : (Command.make m target).Within T) : Safe (Sound C B) (make m) s fun _ _ => True := by
  cases m with
  | assemble r => exact safe_assemble h hs r
  | ofParts kind rows data validity => exact safe_ofParts h hs hm
  | share v => exact safe_share hs v
  | cast v target => exact safe_cast h hs v target
  | concat vs => exact safe_concat h hs vs
  | operate op out l r => exact safe_operate h hs op out l r
  | operateScalar op out l r => exact safe_operateScalar h hs op out l r

theorem keeps_addTo (h : Invariant T C B) (hs : s.Sound C B) (b : String) (a : Addition) :
    Keeps (Sound C B) (addTo b a) s fun _ _ => True := by
  rw [addTo_eq]
  refine (safe_builder hs b).bindSameKeeps ?_
  intro before hbefore
  refine (safe_refusal (safe_extended h hs (hs.builders b before hbefore) a)).bindKeeps ?_
  intro answer s' hs' _ hanswer
  cases answer with
  | error e => exact .pure hs' trivial
  | ok after =>
    refine (Keeps.modify (hs'.setBuilder b (hanswer after rfl))).bind ?_
    intro _ s₂ hs₂ _
    exact .pure hs₂ trivial

/-- **Adding rows** to a builder. -/
theorem keeps_append (h : Invariant T C B) (hs : s.Sound C B) (b : String) (a : Addition) :
    Keeps (Sound C B) (append b a) s fun _ _ => True := by
  cases a with
  | rows r => exact keeps_addTo h hs b _
  | vector v =>
    refine (safe_shape hs v).bindSameKeeps ?_
    intro _ _
    exact keeps_addTo h hs b _

theorem keeps_buildBy (hs : s.Sound C B) {w : Work Nat} {f : Builder → Action (Nat × Builder)}
    (hw : ActsAs w f) (hf : ∀ before, B before → Safe (Sound C B) (f before) s fun p _ => B p.2)
    (b target : String) : Keeps (Sound C B) (buildBy w b target) s fun _ _ => True := by
  rw [buildBy_eq hw]
  refine (safe_builder hs b).bindSameKeeps ?_
  intro before hbefore
  refine (safe_refusal (hf before (hs.builders b before hbefore))).bindKeeps ?_
  intro answer s' hs' _ hanswer
  cases answer with
  | error e => exact .pure hs' trivial
  | ok p =>
    refine (Keeps.modify (hs'.setBuilder b (hanswer p rfl))).bind ?_
    intro _ s₂ hs₂ _
    refine (keeps_settle hs₂ target p.1).bind ?_
    intro _ s₃ hs₃ _
    exact .pure hs₃ trivial

/-- **Taking a builder's content** for a vector. -/
theorem keeps_buildTo (h : Invariant T C B) (hs : s.Sound C B) (b : String) (destination : Destination)
    (target : String) : Keeps (Sound C B) (buildTo b destination target) s fun _ _ => True := by
  cases destination with
  | configured => exact keeps_buildBy hs actsAs_build (fun _ hb => safe_build h hs hb) b target
  | host => exact keeps_buildBy hs actsAs_buildOnHost (fun _ hb => safe_buildOnHost h hs hb) b target
  | runtime name =>
    refine (safe_runtime hs name).bindSameKeeps ?_
    intro id hid
    exact keeps_buildBy hs (actsAs_buildOnDevice id) (fun _ hb => safe_buildOnDevice h hs hb hid) b target

theorem keeps_newBuilder (h : Invariant T C B) (hs : s.Sound C B) (name : String) (kind : Kind)
    (capacity : Nat) (withValidity : Bool) :
    Keeps (Sound C B) (newBuilder name kind capacity withValidity) s fun _ _ => True := by
  refine (Safe.act hs).bindSameKeeps ?_
  intro b hb
  have halike : s.Alike { s with ledger := s.ledger.register } := ⟨rfl, rfl, rfl, Nat.le_succ _⟩
  refine (Keeps.modify (hs.alike halike rfl)).bind ?_
  intro _ s₁ hs₁ _
  refine (Keeps.modify ((hs₁.dropBuilder name).setBuilder name (h.create hb))).bind ?_
  intro _ s₂ hs₂ _
  exact .pure hs₂ trivial

/-- **Every command keeps an invariant**, within limits. -/
theorem keeps_reply (h : Invariant T C B) (hs : s.Sound C B) {c : Command} (hc : c.Within T) :
    Keeps (Sound C B) (reply c) s fun _ _ => True := by
  -- Most commands answer with what they read.
  have hreply {α : Type} {x : Action α} (hx : Safe (Sound C B) x s fun _ _ => True) (f : α → Reply) :
      Keeps (Sound C B) (do return f (← x)) s fun _ _ => True := by
    refine hx.bindKeeps ?_
    intro _ s' hs' _ _
    exact .pure hs' trivial
  cases c with
  | newBuilder b kind capacity withValidity => exact keeps_newBuilder h hs b kind capacity withValidity
  | append b a => exact keeps_append h hs b a
  | builder b =>
    exact hreply ((safe_builder hs b).mono fun _ _ _ _ _ => trivial) fun b => .builder b none
  | closeBuilder b =>
    refine (safe_builder hs b).bindSameKeeps ?_
    intro before hbefore
    refine (Keeps.modify (hs.setBuilder b (h.close (hs.builders b before hbefore)))).bind ?_
    intro _ s' hs' _
    exact .pure hs' trivial
  | dropBuilder b =>
    refine (Safe.get hs).bindSameKeeps ?_
    intro _ hanswer
    subst hanswer
    refine (Keeps.modify (hs.dropBuilder b)).bind ?_
    intro _ s' hs' _
    exact .pure hs' trivial
  | build b destination target => exact keeps_buildTo h hs b destination target
  | make m target =>
    refine (safe_make h hs hc).bindKeeps ?_
    intro id s' hs' _ _
    refine (keeps_settle hs' target id).bind ?_
    intro _ s₂ hs₂ _
    exact .pure hs₂ trivial
  | isComparison op => exact .pure hs trivial
  | info v => exact hreply (safe_info hs v) .vector
  | isNull v i => exact hreply (safe_isNull hs v i) .flag
  | isNullExtended v i => exact hreply (safe_isNullExtended hs v i) .flag
  | validityBits v => exact hreply (safe_validityBits hs v) .count
  | element v f i => exact hreply (safe_element hs v f i) (.element f)
  | text v i => exact hreply (safe_text hs v i) .text
  | scalar v i => exact hreply (safe_scalar hs v i) .scalar
  | scan v f start count => exact hreply (safe_scan hs v f start count) (.elements f)
  | view v => exact hreply (safe_view hs v) .view
  | dump v =>
    refine (safe_shape hs v).bindKeeps ?_
    intro sh s₁ hs₁ _ _
    refine (safe_scalars hs₁ v 0 sh.rows).bindKeeps ?_
    intro values s₂ hs₂ _ _
    refine (safe_view hs₂ v).bindKeeps ?_
    intro view s₃ hs₃ _ _
    refine (safe_info hs₃ v).bindKeeps ?_
    intro _ s₄ hs₄ _ _
    exact .pure hs₄ trivial
  | close v =>
    refine (safe_storage hs v).bindSameKeeps ?_
    intro _ _
    refine (Keeps.modify (hs.unbind v true)).bind ?_
    intro _ s' hs' _
    exact .pure hs' trivial
  | drop v =>
    refine (Safe.get hs).bindSameKeeps ?_
    intro _ hanswer
    subst hanswer
    refine (Keeps.modify (hs.unbind v false)).bind ?_
    intro _ s' hs' _
    exact .pure hs' trivial
  | newRuntime name plan =>
    refine (Keeps.modify (hs.newRuntime name hc rfl)).bind ?_
    intro _ s' hs' _
    exact .pure hs' trivial
  | runtimeUse name =>
    refine (safe_runtime hs name).bindKeeps ?_
    intro id s₁ hs₁ _ _
    refine (Safe.get hs₁).bindKeeps ?_
    intro _ s₂ hs₂ _ _
    exact .pure hs₂ trivial
  | defaultRuntimeBytes => exact hreply ((Safe.get hs).mono fun _ _ _ _ _ => trivial) _
  | ledger => exact hreply ((Safe.get hs).mono fun _ _ _ _ _ => trivial) fun s => .ledger s.ledger
  | takeEvents => exact Keeps.modifyGet (hs.alike ⟨rfl, rfl, rfl, Nat.le_refl _⟩ rfl)
  | config => exact hreply (safe_config hs) .config
  | configure c =>
    refine Keeps.modifyGet ?_
    split
    · exact hs
    · exact hs.alike ⟨rfl, rfl, rfl, Nat.le_refl _⟩ rfl

end Action

/-! ## Runs -/

namespace Session

variable {T : Limits} {C : Column → Prop} {B : Builder → Prop} {s : Session}

theorem step_eq_exec (s : Session) (c : Command) :
    s.step c = match (Action.reply c).exec s with
      | (.ok reply, s') => (reply, s')
      | (.error stop, s') => (.stopped stop, s') := rfl

theorem step_snd (s : Session) (c : Command) : (s.step c).2 = ((Action.reply c).exec s).2 := by
  rw [step_eq_exec]
  split <;> next heq => rw [heq]

/-- A reach past the end of a buffer ends a script. -/
theorem run_cons_of_fault {c : Command} (h : (s.step c).1 = .stopped (.fault .outOfBounds))
    (rest : List Command) :
    s.run (c :: rest) = ([.stopped (.fault .outOfBounds)], (s.step c).2) := by
  unfold Session.run
  split
  next heq => rw [heq]
  next hne heq => exact absurd (by rw [heq] at h; exact h) hne

theorem run_cons_of_ne {c : Command} (h : (s.step c).1 ≠ .stopped (.fault .outOfBounds))
    (rest : List Command) :
    s.run (c :: rest) = ((s.step c).1 :: ((s.step c).2.run rest).1, ((s.step c).2.run rest).2) := by
  rw [Session.run]
  split
  next heq => exact absurd (by rw [heq]) h
  next heq => rw [heq]

/-- A session that commands within limits lead to. -/
inductive Reachable (T : Limits) : Session → Prop where
  | start (config : Option Config) : Reachable T { config := config }
  | step {s : Session} {c : Command} (h : Reachable T s) (hc : c.Within T) : Reachable T (s.step c).2

theorem faithful_faultless : Runtime.faultless.plan.Faithful := fun _ _ => rfl

/-- A session with nothing in it but the default runtime. -/
theorem sound_start (config : Option Config) : ({ config := config } : Session).Sound C B where
  coherent := {
    dense := List.Perm.refl _
    default := Nat.zero_lt_one
    faithful := fun id => by
      rw [runtime, Table.find?_insert]
      split <;> exact faithful_faultless
    names := by simp
    bounded := fun id => by
      rw [runtime, Table.find?_insert]
      split <;> exact fun _ _ hfind => by cases hfind
    ids := by simp
    shaped := by simp
    copies := by simp
    apart := by simp }
  columns := by simp [column?]
  builders := by simp

theorem Sound.step (h : Invariant T C B) (hs : s.Sound C B) {c : Command} (hc : c.Within T) :
    (s.step c).2.Sound C B := by
  have hkeeps := (Action.keeps_reply h hs hc).keeps
  rwa [step_snd]

/-- **Scripts** within limits lead to reachable sessions. -/
theorem Reachable.run (hs : s.Reachable T) {commands : List Command}
    (hc : ∀ c ∈ commands, c.Within T) : (s.run commands).2.Reachable T := by
  induction commands generalizing s with
  | nil => exact hs
  | cons c rest ih =>
    have hstep := hs.step (hc c (by simp))
    by_cases hfault : (s.step c).1 = .stopped (.fault .outOfBounds)
    · rwa [run_cons_of_fault hfault]
    · rw [run_cons_of_ne hfault]
      exact ih hstep fun c hmem => hc c (by simp [hmem])

/-- **Every reachable session** has columns and builders of the invariant only. -/
theorem Reachable.sound (h : Invariant T C B) (hs : s.Reachable T) : s.Sound C B := by
  induction hs with
  | start config => exact sound_start config
  | step _ hc ih => exact ih.step h hc

end Session

end Columnar
