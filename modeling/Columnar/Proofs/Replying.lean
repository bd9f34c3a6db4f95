/-
What every command does, given its reply.

`Command.Weighs` lists, for each command and each kind of reply, the deeds that change
names and accounts; with any other reply there are none. Whatever else the command does
is light, and if it could not fetch data its reply is the device's error
(`Session.does_step`).
-/
import Columnar.Proofs.Deeds
import Columnar.Proofs.Destinations

namespace Columnar

/-- The error that a reply tells. -/
def Reply.error? : Reply → Option ColumnError
  | .builder _ refused => refused
  | .stopped (.fault (.refused e)) => some e
  | _ => none

/-- The reply that an answer comes to. -/
def Reply.ofAnswer : Except Stop Reply → Reply
  | .ok r => r
  | .error stop => .stopped stop

open Session

/-- The deeds of making a vector, before it has a name. -/
def Making.Weighs (s : Session) (id : Nat) (ds : List Deed) : Making → Prop
  | .assemble _ => ∃ d : Deed, d.Adds id ∧ ds = [.enter, d, .giveUp]
  | .share v => s.vectors.find? v = some id ∧ ds = [.share id]
  | _ => ∃ d : Deed, d.Adds id ∧ ds = [d]

/-- The deeds of an attempt to make a vector that comes to nothing: a recipe has made its
builder all the same, if that was possible, and given it up. -/
def Making.WeighsInVain (ds : List Deed) : Making → Prop
  | .assemble r =>
    match Builder.create r.kind r.capacity false with
    | .ok _ => ds = [.enter, .giveUp]
    | .error _ => ds = []
  | _ => ds = []

/-- The deeds of a command that change names and accounts, given its reply. -/
def Command.Weighs (s : Session) (c : Command) (r : Reply) (ds : List Deed) : Prop :=
  match c with
  | .newBuilder b _ _ _ =>
    match r with
    | .builder _ none => ds = [.enter, .dropBuilder b, .setBuilder b]
    | _ => ds = []
  | .append b _ | .closeBuilder b =>
    match r with
    | .builder _ none => (s.builders.find? b).isSome ∧ ds = [.setBuilder b]
    | _ => ds = []
  | .dropBuilder b => ds = [.dropBuilder b]
  | .build b _ target =>
    match r with
    | .built _ _ => (s.builders.find? b).isSome ∧
        ∃ (d : Deed) (id : Nat), d.Adds id ∧ ds = [d, .setBuilder b, .unbind target false, .bind target id]
    | _ => ds = []
  | .make m target =>
    match r with
    | .vector _ => ∃ id made, m.Weighs s id made ∧ ds = made ++ [.unbind target false, .bind target id]
    | _ => m.WeighsInVain ds
  | .close v =>
    match r with
    | .flag _ => ds = [.unbind v true]
    | _ => ds = []
  | .drop v => ds = [.unbind v false]
  | .newRuntime _ _ => ds = [.newRuntime]
  | _ => ds = []

/-- What a reply tells of the deeds of a command. -/
structure Replying (s : Session) (c : Command) (answer : Except Stop Reply) (ds : List Deed)
    (_ : Session) : Prop where
  blames : Blames (fun e => (Reply.ofAnswer answer).error? = some (.device e)) ds
  weighs : c.Weighs s (Reply.ofAnswer answer) (Deed.weights ds)

namespace Action

variable {s : Session} {c : Command} {α : Type}

theorem Performs.replying {x : Action Reply} {W : Except Stop Reply → List Deed → Session → Prop} {t : Session}
    (hx : Performs x t (Telling W))
    (hW : ∀ answer ws s', W answer ws s' → c.Weighs s (Reply.ofAnswer answer) ws) :
    Performs x t (Replying s c) :=
  hx.mono fun answer ds s' h => ⟨h.blames.mono fun e he => by rw [he]; rfl, hW answer _ s' h.weighs⟩

/-- **What only looks** at a session. -/
theorem Light.replying {x : Action α} (hx : Light x) (f : α → Reply) (s : Session)
    (hc : ∀ r, c.Weighs s r []) : Performs (do return f (← x)) s (Replying s c) := by
  refine Performs.replying (hx.bind (fun a => Light.pure (f a)) s) ?_
  rintro answer _ _ rfl
  exact hc _

/-! ## Builders -/

theorem light_builder (name : String) : Light (builder name) := .bind .get fun _ => .named name _

theorem light_runtime (name : String) : Light (runtime name) := .bind .get fun _ => .named name _

/-- A name that is given to a storage is taken from another. -/
theorem runs_bind (name : String) (id : Nat) :
    s.Runs [.unbind name false, .bind name id] (s.bind name id) :=
  .cons (.unbind name false) (Does.bind (s := s.unbind name false) name id).runs

/-- The vector with a number that there is gets its name. -/
theorem exec_settle {target : String} {id : Nat} {st : Storage} (hst : s.storages.find? id = some st) :
    (settle target id).exec s = (.ok st.info, s.bind target id) := by
  simp only [settle, infoOf, exec_bind, exec_get, hst, exec_named, exec_pure, exec_modify]

/-- **Adding rows**: a refused addition changes no builder. -/
theorem performs_addTo (hs : s.Suited) (b : String) (a : Addition) :
    Performs (addTo b a) s (Replying s (.append b a)) := by
  cases hb : s.builders.find? b with
  | none =>
    have hexec : (addTo b a).exec s = (.error (.noSuchObject b), s) := by
      rw [addTo_eq, exec_bind, exec_builder_none hb]
    exact .of_exec hexec (.nil s) ⟨.clean rfl, rfl⟩
  | some before =>
    obtain ⟨ds, hruns, hblames, hws, -⟩ := performs_extended (hs b before hb) a s
    have hexec := exec_addTo hb a
    rcases hx : (extended before a).exec s with ⟨((e | _) | name) | after, s'⟩
    all_goals rw [hx] at hruns hblames hexec
    · refine .of_exec hexec hruns ⟨hblames.mono fun _ he => ?_, hws⟩
      cases he
      rfl
    · exact .of_exec hexec hruns ⟨hblames.mono fun _ he => (by cases he), hws⟩
    · exact .of_exec hexec hruns ⟨hblames.mono fun _ he => (by cases he), hws⟩
    · refine .of_exec hexec (hruns.append (Does.setBuilder b after).runs)
        ⟨(hblames.append_right rfl).mono fun _ he => (by cases he), ?_⟩
      rw [Deed.weights_append, hws]
      exact ⟨by rw [hb]; rfl, rfl⟩

theorem performs_append (hs : s.Suited) (b : String) (a : Addition) :
    Performs (append b a) s (Replying s (.append b a)) := by
  cases a with
  | rows r => exact performs_addTo hs b (.rows r)
  | vector v =>
    cases hv : s.storage? v with
    | none =>
      have hx : (append b (.vector v)).exec s = (.error (.noSuchObject v), s) := by
        simp only [append, shape, exec_bind, exec_storage_none hv]
      exact .of_exec hx (.nil s) ⟨.clean rfl, rfl⟩
    | some p =>
      obtain ⟨hid, hst⟩ := storage?_eq_some.mp hv
      have hx : (append b (.vector v)).exec s = (addTo b (.vector v)).exec s := by
        simp only [append, shape, exec_bind, exec_storage hid hst, exec_pure]
      exact .congr hx (performs_addTo hs b (.vector v))

/-- **Taking a builder's content**: what was built gets its name, and what could not be
built leaves the builder as it was. -/
theorem performs_buildBy {w : Work Nat} {f : Builder → Action (Nat × Builder)} (hw : ActsAs w f)
    {b target : String} {destination : Destination}
    (hf : ∀ before, s.builders.find? b = some before → Performs (f before) s (Telling AddedBy)) :
    Performs (buildBy w b target) s (Replying s (.build b destination target)) := by
  cases hb : s.builders.find? b with
  | none =>
    have hexec : (buildBy w b target).exec s = (.error (.noSuchObject b), s) := by
      rw [buildBy_eq hw, exec_bind, exec_builder_none hb]
    exact .of_exec hexec (.nil s) ⟨.clean rfl, rfl⟩
  | some before =>
    obtain ⟨ds, hruns, hblames, hws⟩ := hf before hb
    rcases hx : (f before).exec s with ⟨((e | _) | name) | ⟨id, after⟩, s'⟩
    all_goals rw [hx] at hruns hblames hws
    · refine .of_exec (exec_buildBy_error hw target hb hx) hruns ⟨hblames.mono fun _ he => ?_, hws⟩
      cases he
      rfl
    · have hexec : (buildBy w b target).exec s = (.error (.fault .outOfBounds), s') := by
        rw [buildBy_eq hw]
        simp only [exec_bind, exec_builder hb, exec_refusal, hx]
      exact .of_exec hexec hruns ⟨hblames.mono fun _ he => (by cases he), hws⟩
    · have hexec : (buildBy w b target).exec s = (.error (.noSuchObject name), s') := by
        rw [buildBy_eq hw]
        simp only [exec_bind, exec_builder hb, exec_refusal, hx]
      exact .of_exec hexec hruns ⟨hblames.mono fun _ he => (by cases he), hws⟩
    · obtain ⟨⟨d, hd, hws⟩, hfound⟩ := hws
      obtain ⟨st, hst⟩ := Option.isSome_iff_exists.mp hfound
      refine .of_exec (exec_buildBy hw hb hx hst)
        (hruns.append (.cons (.setBuilder b after) (runs_bind target id)))
        ⟨(hblames.append_right rfl).mono fun _ he => (by cases he), ?_⟩
      rw [Deed.weights_append, hws]
      exact ⟨by rw [hb]; rfl, d, id, hd, rfl⟩

theorem performs_buildTo (hs : s.Suited) (b : String) (destination : Destination) (target : String) :
    Performs (buildTo b destination target) s (Replying s (.build b destination target)) := by
  cases destination with
  | configured => exact performs_buildBy actsAs_build fun before hb => performs_build (hs b before hb) s
  | host => exact performs_buildBy actsAs_buildOnHost fun before _ => performs_buildOnHost before s
  | runtime name =>
    cases hi : s.runtimeNames.find? name with
    | none =>
      have hx : (buildTo b (.runtime name) target).exec s = (.error (.noSuchObject name), s) := by
        simp only [buildTo, runtime, exec_bind, exec_get, hi, exec_named]
      exact .of_exec hx (.nil s) ⟨.clean rfl, rfl⟩
    | some i =>
      have hx : (buildTo b (.runtime name) target).exec s =
          (buildBy (Work.buildOnDevice i) b target).exec s := by
        simp only [buildTo, runtime, exec_bind, exec_get, hi, exec_named]
      exact .congr hx (performs_buildBy (actsAs_buildOnDevice i) fun before hb =>
        performs_buildOnDevice (hs b before hb) i s)

theorem performs_newBuilder (b : String) (kind : Kind) (capacity : Nat) (withValidity : Bool) :
    Performs (newBuilder b kind capacity withValidity) s
      (Replying s (.newBuilder b kind capacity withValidity)) := by
  cases hb : Builder.create kind capacity withValidity with
  | error f =>
    have hx : (newBuilder b kind capacity withValidity).exec s = (.error (.fault f), s) := by
      simp only [newBuilder, exec_bind, exec_act, hb]
    exact .of_exec hx (.nil s) ⟨.clean rfl, by cases f <;> rfl⟩
  | ok made =>
    have hx : (newBuilder b kind capacity withValidity).exec s = (.ok (.builder made none),
        (({ s with ledger := s.ledger.register } : Session).dropBuilder b).setBuilder b made) := by
      simp only [newBuilder, exec_bind, exec_act, hb, exec_modify, exec_pure]
    exact .of_exec hx (.cons .enter (.cons (.dropBuilder b) (Does.setBuilder b made).runs))
      ⟨.clean rfl, rfl⟩

/-! ## Vectors -/

theorem performs_make (m : Making) (s : Session) :
    Performs (make m) s (Telling fun answer ws s' =>
      match answer with
      | .ok id => m.Weighs s id ws ∧ (s'.storages.find? id).isSome
      | .error _ => m.WeighsInVain ws) := by
  have hadded {x : Action Nat} (hx : Performs x s (Telling Added)) :
      Performs x s (Telling fun answer ws s' =>
        match answer with
        | .ok id => (∃ d : Deed, d.Adds id ∧ ws = [d]) ∧ (s'.storages.find? id).isSome
        | .error _ => ws = []) :=
    hx.weaken fun answer _ _ h => by cases answer <;> exact h
  cases m with
  | assemble r => exact (performs_assemble r s).weaken fun answer _ _ h => by cases answer <;> exact h
  | share v =>
    refine (performs_share v s).weaken fun answer _ _ h => ?_
    cases answer with
    | error stop => exact h
    | ok id => exact ⟨⟨h.2.1, h.1⟩, h.2.2⟩
  | ofParts kind rows data validity => exact hadded (performs_ofParts kind rows data validity s)
  | cast v target => exact hadded (performs_cast v target s)
  | concat vs => exact hadded (performs_concat vs s)
  | operate op out l r => exact hadded (performs_operate op out l r s)
  | operateScalar op out l r => exact hadded (performs_operateScalar op out l r s)

/-- **A new vector** gets its name once it is there. -/
theorem performs_making (m : Making) (target : String) :
    Performs (reply (.make m target)) s (Replying s (.make m target)) := by
  refine Performs.replying (W := fun answer ws _ => (Command.make m target).Weighs s (Reply.ofAnswer answer) ws)
    ?_ fun _ _ _ h => h
  refine (performs_make m s).bind (fun id made s' h => ?_) fun stop ws s' h => h
  obtain ⟨hweighs, hfound⟩ := h
  obtain ⟨st, hst⟩ := Option.isSome_iff_exists.mp hfound
  exact .after (exec_settle hst) (runs_bind target id) rfl (.same (exec_pure _ _) ⟨id, made, hweighs, rfl⟩)

/-! ## Commands -/

/-- **Every command** does what its reply tells. -/
theorem performs_reply (h : s.Proper fun _ => False) (c : Command) :
    Performs (reply c) s (Replying s c) := by
  cases c with
  | newBuilder b kind capacity withValidity => exact performs_newBuilder b kind capacity withValidity
  | append b a => exact performs_append h.suits b a
  | builder b => exact (light_builder b).replying (fun b => .builder b none) s fun _ => rfl
  | closeBuilder b =>
    cases hb : s.builders.find? b with
    | none => exact .of_exec (exec_bind_error (exec_builder_none hb)) (.nil s) ⟨.clean rfl, rfl⟩
    | some before =>
      have hx : (reply (.closeBuilder b)).exec s =
          (.ok (.builder before.close none), s.setBuilder b before.close) := by
        simp only [reply, exec_bind, exec_builder hb, exec_modify, exec_pure]
      exact .of_exec hx (Does.setBuilder b _).runs
        ⟨.clean rfl, by rw [hb]; rfl, rfl⟩
  | dropBuilder b =>
    exact .of_exec (a := .ok (.flag (s.builders.contains b))) rfl (Does.dropBuilder b).runs
      ⟨.clean rfl, rfl⟩
  | build b destination target => exact performs_buildTo h.suits b destination target
  | make m target => exact performs_making m target
  | isComparison op => exact Performs.replying (Light.pure _ s) fun _ _ _ hws => hws
  | info v => exact (light_info v).replying .vector s fun _ => rfl
  | isNull v i => exact (light_isNull v i).replying .flag s fun _ => rfl
  | isNullExtended v i => exact (light_isNullExtended v i).replying .flag s fun _ => rfl
  | validityBits v => exact (light_validityBits v).replying .count s fun _ => rfl
  | element v f i => exact (light_element v f i).replying (.element f) s fun _ => rfl
  | text v i => exact (light_text v i).replying .text s fun _ => rfl
  | scalar v i => exact (light_scalar v i).replying .scalar s fun _ => rfl
  | scan v f start count => exact (light_scan v f start count).replying (.elements f) s fun _ => rfl
  | view v => exact (light_view v).replying .view s fun _ => rfl
  | dump v =>
    have hlight : Light (reply (.dump v)) :=
      (light_shape v).bind fun _ => (light_scalars v 0 _).bind fun _ => (light_view v).bind fun _ =>
        (light_info v).bind fun _ => .pure _
    exact Performs.replying (hlight s) fun _ _ _ hws => hws
  | close v =>
    cases hv : s.storage? v with
    | none => exact .of_exec (exec_bind_error (exec_storage_none hv)) (.nil s) ⟨.clean rfl, rfl⟩
    | some p =>
      obtain ⟨hid, hst⟩ := storage?_eq_some.mp hv
      have hx : (reply (.close v)).exec s = (.ok (.flag true), s.unbind v true) := by
        simp only [reply, exec_bind, exec_storage hid hst, exec_modify, exec_pure]
      exact .of_exec hx (Does.unbind v true).runs ⟨.clean rfl, rfl⟩
  | drop v =>
    exact .of_exec (a := .ok (.flag (s.vectors.contains v))) rfl (Does.unbind v false).runs
      ⟨.clean rfl, rfl⟩
  | newRuntime name plan =>
    exact .of_exec (a := .ok .done) rfl (Does.newRuntime name plan (Table.Dense.find?_size h.dense)).runs
      ⟨.clean rfl, rfl⟩
  | runtimeUse name =>
    have hlight : Light (reply (.runtimeUse name)) :=
      (light_runtime name).bind fun _ => Light.get.bind fun _ => .pure _
    exact Performs.replying (hlight s) fun _ _ _ hws => hws
  | defaultRuntimeBytes => exact Light.get.replying (fun s => .count (some (s.runtime 0).device.bytesInUse)) s fun _ => rfl
  | ledger => exact Light.get.replying (fun s => .ledger s.ledger) s fun _ => rfl
  | takeEvents =>
    exact .of_exec (a := .ok (.events s.events)) rfl (Does.aside s.config []).runs
      ⟨.clean rfl, rfl⟩
  | config =>
    have hlight : Light config := fun s =>
      .clean (exec_modifyGet _ s) (Does.aside (some s.settledConfig) s.events).runs rfl rfl
    exact hlight.replying .config s fun _ => rfl
  | configure c =>
    cases hc : s.config with
    | none =>
      have hx : (reply (.configure c)).exec s = (.ok (.flag true), { s with config := some c }) := by
        simp only [reply, exec_modifyGet, hc]
      exact .of_exec hx (Does.aside (some c) s.events).runs ⟨.clean rfl, rfl⟩
    | some old =>
      have hx : (reply (.configure c)).exec s = (.ok (.flag false), s) := by
        simp only [reply, exec_modifyGet, hc]
      exact .of_exec hx (.nil s) ⟨.clean rfl, rfl⟩

end Action

namespace Session

variable {s : Session}

/-- **A command, deed by deed.** From any session that commands lead to, a command leads
on by deeds of which its reply tells. -/
theorem does_step (hs : s.Arising) (c : Command) :
    ∃ ds, s.Runs ds (s.step c).2 ∧ Blames (fun e => (s.step c).1.error? = some (.device e)) ds ∧
      c.Weighs s (s.step c).1 (Deed.weights ds) := by
  obtain ⟨ds, hruns, hblames, hweighs⟩ := Action.performs_reply hs.proper c
  have hstep : s.step c = (Reply.ofAnswer ((Action.reply c).exec s).1, ((Action.reply c).exec s).2) := by
    rw [step_eq_exec]
    split <;> next heq => rw [heq]; rfl
  rw [hstep]
  exact ⟨ds, hruns, hblames, hweighs⟩

end Session

end Columnar
