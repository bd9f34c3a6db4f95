/-
What every action keeps.

An invariant of columns and builders (`Invariant`) is one that holds of all that
is newly made and is kept by everything that makes a column or a builder of
others, with raw parts or without them. A session is `Sound` if it is coherent and all in it is in the invariant, and then
every action is safe.
-/
import Columnar.Proofs.Working

namespace Columnar

/-- Whether columns are made of raw parts. -/
inductive Limits where
  | unlimited
  | withoutParts

/-- Properties of columns and of builders that everything keeps, within limits. -/
structure Invariant (T : Limits) (C : Column → Prop) (B : Builder → Prop) : Prop where
  suits : ∀ {c}, C c → c.payload.elements.Suits c.kind
  create : ∀ {k n withBits b}, Builder.create k n withBits = .ok b → B b
  append : ∀ {b b' r}, B b → b.append r = .ok b' → B b'
  appendColumn : ∀ {b b' c}, B b → C c → b.appendColumn c.shape c.payload = .ok b' → B b'
  column : ∀ {b}, B b → b.phase = .opened → C b.column
  finish : ∀ {b}, B b → B b.finish
  close : ∀ {b}, B b → B b.close
  ofParts : ∀ {k n data validity c}, T = .unlimited → Column.ofParts k n data validity = .ok c → C c
  cast : ∀ {c c' target}, C c → c.cast target = .ok c' → C c'
  concat : ∀ {parts c}, (∀ part ∈ parts, C part) → Column.concat parts = .ok c → C c
  operate : ∀ {op out l r c}, C l → C r → Column.operate op out l r = .ok c → C c
  operateScalar : ∀ {op out l r c}, C l → Column.operateScalar op out l r = .ok c → C c

namespace Session

/-- A coherent session with columns and builders of some property. -/
structure Sound (C : Column → Prop) (B : Builder → Prop) (s : Session) : Prop where
  coherent : s.Coherent
  columns : ∀ id c, s.column? id = some c → C c
  builders : ∀ name b, s.builders.find? name = some b → B b

/-- The column that is under a name. -/
def shown? (s : Session) (v : String) : Option Column := s.vectors.find? v >>= s.column?

variable {C : Column → Prop} {B : Builder → Prop} {s s' : Session}

/-- Where nothing is asked of columns and builders, sessions are only to be coherent. -/
theorem Coherent.sound (hs : s.Coherent) : s.Sound (fun _ => True) fun _ => True :=
  ⟨hs, fun _ _ _ => trivial, fun _ _ _ => trivial⟩

/-- What is under a name. -/
theorem storage?_eq_some {v : String} {id : Nat} {st : Storage} :
    s.storage? v = some (id, st) ↔ s.vectors.find? v = some id ∧ s.storages.find? id = some st := by
  simp only [storage?, Option.bind_eq_bind, Option.pure_def, Option.bind_eq_some_iff,
    Option.some.injEq, Prod.mk.injEq]
  constructor
  · rintro ⟨_, hid, _, hst, rfl, rfl⟩
    exact ⟨hid, hst⟩
  · rintro ⟨hid, hst⟩
    exact ⟨id, hid, st, hst, rfl, rfl⟩

theorem Later.shown? (h : s.Later s') {v : String} {c : Column} (hc : s.shown? v = some c) :
    s'.shown? v = some c := by
  simp only [Session.shown?, Option.bind_eq_bind, Option.bind_eq_some_iff] at hc ⊢
  obtain ⟨id, hid, hc⟩ := hc
  exact ⟨id, h.vectors ▸ hid, h.columns id c hc⟩

theorem Later.map_shown? (h : s.Later s') {vs : List String} {cs : List Column}
    (hcs : vs.map s.shown? = cs.map some) : vs.map s'.shown? = cs.map some := by
  rw [← hcs]
  refine List.map_congr_left fun v hv => ?_
  have hmem : s.shown? v ∈ cs.map some := hcs ▸ List.mem_map_of_mem hv
  obtain ⟨c, -, hc⟩ := List.mem_map.mp hmem
  rw [h.shown? hc.symm, hc]

theorem Sound.shown (h : s.Sound C B) {v : String} {c : Column} (hc : s.shown? v = some c) : C c := by
  simp only [Session.shown?, Option.bind_eq_bind, Option.bind_eq_some_iff] at hc
  obtain ⟨id, -, hc⟩ := hc
  exact h.columns id c hc

theorem Alike.later (h : s.Alike s') (hv : s'.vectors = s.vectors) (hb : s'.builders = s.builders) :
    s.Later s' where
  vectors := hv
  builders := hb
  runtimeNames := h.runtimeNames
  columns id c hc := by rwa [h.column? id]

theorem Sound.alike (hs : s.Sound C B) (h : s.Alike s') (hb : s'.builders = s.builders) :
    s'.Sound C B where
  coherent := hs.coherent.alike h
  columns id c hc := hs.columns id c (by rwa [h.column? id] at hc)
  builders name b hfind := hs.builders name b (hb ▸ hfind)

/-- A sound session stays sound where the columns stay. -/
theorem Sound.of_columns (hs : s.Sound C B) (h : s'.Coherent) (hc : ∀ id, s'.column? id = s.column? id)
    (hb : s'.builders = s.builders) : s'.Sound C B where
  coherent := h
  columns id c hfind := hs.columns id c (hc id ▸ hfind)
  builders name b hfind := hs.builders name b (hb ▸ hfind)

theorem later_of_columns (hc : ∀ id, s'.column? id = s.column? id) (hv : s'.vectors = s.vectors)
    (hb : s'.builders = s.builders) (hn : s'.runtimeNames = s.runtimeNames) : s.Later s' :=
  ⟨hv, hb, hn, fun id _ h => (hc id).trans h⟩

theorem Sound.setRuntime (hs : s.Sound C B) {i : Nat} {r : Runtime} (hi : i < s.runtimes.size)
    (hr : (s.runtime i).Keeps r) :
    (s.setRuntime i r).Sound C B ∧ s.Later (s.setRuntime i r) ∧
      ∀ id, (s.setRuntime i r).column? id = s.column? id := by
  obtain ⟨hcoherent, hcolumns⟩ := hs.coherent.setRuntime hi hr
  have hbuilders : (s.setRuntime i r).builders = s.builders := rfl
  exact ⟨hs.of_columns hcoherent hcolumns hbuilders, later_of_columns hcolumns rfl hbuilders rfl,
    hcolumns⟩

theorem Sound.setStorage (hs : s.Sound C B) {id : Nat} {st : Storage} (st' : Storage)
    (hst : s.storages.find? id = some st) (hshape : st'.shape = st.shape)
    (hcopy : st'.place.deviceCopy? = st.place.deviceCopy?) (hp : s.payloadOf st' = s.payloadOf st) :
    (s.setStorage id st').Sound C B ∧ s.Later (s.setStorage id st') := by
  obtain ⟨hcoherent, hcolumns⟩ := hs.coherent.setStorage st' hst hshape hcopy hp
  have hbuilders : (s.setStorage id st').builders = s.builders := rfl
  exact ⟨hs.of_columns hcoherent hcolumns hbuilders, later_of_columns hcolumns rfl hbuilders rfl⟩

theorem Sound.addStorage (hs : s.Sound C B) (shape : Shape) (place : Place)
    (hbits : shape.hasValidity = (s.payloadOf ⟨shape, place, 1⟩).validity.isSome)
    (hplace : s.Unshared place) (hc : C (s.columnOf ⟨shape, place, 1⟩)) :
    (s.addStorage shape place).2.Sound C B ∧ s.Later (s.addStorage shape place).2 := by
  obtain ⟨horderly, hcolumns⟩ := hs.coherent.addStorage hbits hplace
  have hcoherent := hs.coherent.of_orderly horderly fun _ => rfl
  have hbuilders : (s.addStorage shape place).2.builders = s.builders := rfl
  refine ⟨⟨hcoherent, fun id c hfind => ?_, fun name b hfind => hs.builders name b (hbuilders ▸ hfind)⟩,
    rfl, hbuilders, rfl, fun id c hfind => ?_⟩
  · rw [hcolumns] at hfind
    split at hfind
    · cases hfind
      exact hc
    · exact hs.columns id c hfind
  · obtain ⟨st, hst, -⟩ := column?_eq_some.mp hfind
    have hne : id ≠ (s.addStorage shape place).1 :=
      Nat.ne_of_lt (Nat.lt_succ_of_le (hs.coherent.ids id st hst))
    rw [hcolumns, if_neg hne]
    exact hfind

theorem alike_log (s : Session) (e : Event) : s.Alike (s.log e) := ⟨rfl, rfl, rfl, Nat.le_refl _⟩

theorem runtime_log (s : Session) (e : Event) (i : Nat) : (s.log e).runtime i = s.runtime i := rfl

end Session

open Session

/-! ## What building does -/

namespace Builder

open Columnar.Action

variable {b : Builder} {s : Session} {i : Nat} {r : Runtime}

theorem exec_buildOnHost (h : b.phase = .opened) (s : Session) :
    (buildOnHost b).exec s =
      (.ok (s.ledger.registered + 1, b.finish),
        ((s.log (.builtOnHost b.kind b.rows b.nulls)).addStorage b.shape (.host b.payload)).2) := by
  have hopen : b.requireOpen = .ok () := requireOpen_eq_ok.mpr h
  rw [← on_buildOnHost, Work.exec_on, exec_work_buildOnHost, hopen]

theorem exec_buildOnHost_of_ne (h : b.phase ≠ .opened) (s : Session) :
    ∃ e, (buildOnHost b).exec s = (.error (.fault (.refused e)), s) := by
  obtain ⟨e, he⟩ := requireOpen_of_ne h
  exact ⟨e, by rw [← on_buildOnHost, Work.exec_on, exec_work_buildOnHost, he]; rfl⟩

theorem exec_buildOnDevice (h : b.phase = .opened) {allocations : List Allocation}
    (hup : (s.runtime i).uploadAll b.payload.buffers = (.ok allocations, r)) :
    (buildOnDevice b i).exec s =
      (.ok (s.ledger.registered + 1, b.finish),
        (((s.setRuntime i r).log (.builtOnDevice b.kind b.rows b.nulls)).addStorage b.shape
          (.device ⟨i, allocations⟩)).2) := by
  have hopen : b.requireOpen = .ok () := requireOpen_eq_ok.mpr h
  simp only [← on_buildOnDevice, Work.exec_on, exec_work_buildOnDevice, hopen, hup]

theorem exec_buildOnDevice_error (h : b.phase = .opened) {e : DeviceError}
    (hup : (s.runtime i).uploadAll b.payload.buffers = (.error e, r)) :
    (buildOnDevice b i).exec s = (.error (.fault (.refused (.device e))), s.setRuntime i r) := by
  have hopen : b.requireOpen = .ok () := requireOpen_eq_ok.mpr h
  simp only [← on_buildOnDevice, Work.exec_on, exec_work_buildOnDevice, hopen, hup]

theorem exec_buildOnDevice_of_ne (h : b.phase ≠ .opened) (i : Nat) (s : Session) :
    ∃ e, (buildOnDevice b i).exec s = (.error (.fault (.refused e)), s) := by
  obtain ⟨e, he⟩ := requireOpen_of_ne h
  exact ⟨e, by rw [← on_buildOnDevice, Work.exec_on, exec_work_buildOnDevice, he]; rfl⟩

end Builder

namespace Action

variable {C : Column → Prop} {B : Builder → Prop} {s : Session}

theorem safe_storage (hs : s.Sound C B) (v : String) :
    Safe (Sound C B) (storage v) s fun p s' =>
      s = s' ∧ s.vectors.find? v = some p.1 ∧ s.storages.find? p.1 = some p.2 := by
  refine (Safe.get hs).bindSame ?_
  intro _ hanswer
  subst hanswer
  refine (Safe.named hs).mono ?_
  intro p _ _ _ hanswer
  obtain ⟨rfl, h⟩ := hanswer
  exact ⟨rfl, storage?_eq_some.mp h⟩

theorem safe_shape (hs : s.Sound C B) (v : String) :
    Safe (Sound C B) (shape v) s fun sh s' => s = s' ∧ ∃ c, s.shown? v = some c ∧ c.shape = sh := by
  refine (safe_storage hs v).bindSame ?_
  intro p hanswer
  obtain ⟨id, st⟩ := p
  obtain ⟨hid, hst⟩ := hanswer
  refine .pure hs ⟨rfl, s.columnOf st, ?_, hs.coherent.shape_columnOf hst⟩
  simp [shown?, hid, column?, hst]

theorem safe_log (hs : s.Sound C B) (e : Event) :
    Safe (Sound C B) (modify (·.log e)) s fun _ s' => s' = s.log e :=
  .modify (hs.alike (alike_log s e) rfl) ((alike_log s e).later rfl rfl)

/-- **What is fetched** is what lies there. -/
theorem safe_fetch (hs : s.Sound C B) {id : Nat} {st : Storage} {d : DeviceCopy}
    (hst : s.storages.find? id = some st) (hplace : st.place = .device d) :
    Safe (Sound C B) (fetch id st d) s fun p _ => p = s.payloadOf st := by
  have hcopy : st.place.deviceCopy? = some d := by rw [hplace]; rfl
  refine (Safe.get hs).bindSame ?_
  intro _ hanswer
  subst hanswer
  rcases hdown : (s.runtime d.runtime).downloadAll d.allocations with ⟨fetched, r⟩
  obtain ⟨hs', hlater, hcolumns⟩ := hs.setRuntime (hs.coherent.copies id st d hst hcopy).1
    (Runtime.keeps_of_downloadAll hdown)
  refine (Safe.modify hs' hlater).bindTo ?_
  intro _
  cases fetched with
  | error e => exact .throw hs'
  | ok buffers =>
    have hcontent : s.payloadOf st = Payload.ofBuffers st.shape buffers := by
      simp only [payloadOf, hplace]
      rw [(Runtime.of_downloadAll hdown).2.2.2 buffers rfl (hs.coherent.faithful _)]
    have hst' : (s.setRuntime d.runtime r).storages.find? id = some st := hst
    have hkept := payloadOf_of_column? hst hst' (hcolumns id)
    obtain ⟨hs'', hlater'⟩ := hs'.setStorage
      { st with place := .both (Payload.ofBuffers st.shape buffers) d } hst' rfl hcopy.symm
      (hcontent.symm.trans hkept.symm)
    refine (Safe.modify hs'' hlater').bindTo ?_
    intro _
    exact .pure hs'' hcontent.symm

theorem safe_materialize (hs : s.Sound C B) (v : String) :
    Safe (Sound C B) (materialize v) s fun p s' => ∃ c, s'.shown? v = some c ∧ c.payload = p := by
  refine (safe_storage hs v).bindSame ?_
  intro p hanswer
  obtain ⟨id, st⟩ := p
  obtain ⟨hid, hst⟩ := hanswer
  have hshown : s.shown? v = some (s.columnOf st) := by simp [shown?, hid, column?, hst]
  cases hplace : st.place with
  | host p =>
    simp only [hplace]
    exact .pure hs ⟨_, hshown, by simp [columnOf, Shape.column, payloadOf, hplace]⟩
  | both p d =>
    simp only [hplace]
    exact .pure hs ⟨_, hshown, by simp [columnOf, Shape.column, payloadOf, hplace]⟩
  | device d =>
    simp only [hplace]
    refine (safe_log hs (.materializing st.shape.rows)).bind ?_
    intro _ s₁ hs₁ hlater hlog
    have hst₁ : s₁.storages.find? id = some st := hlog ▸ hst
    refine (safe_fetch hs₁ hst₁ hplace).mono ?_
    intro _ s' _ hlater' hanswer
    subst hanswer
    refine ⟨s.columnOf st, (hlater.trans hlater').shown? hshown, ?_⟩
    rw [hlog]
    exact (payloadOf_congr rfl st).symm

/-- The data that is brought is that of the column under the name. -/
theorem safe_payload (hs : s.Sound C B) {v : String} {c : Column} (hc : s.shown? v = some c) :
    Safe (Sound C B) (materialize v) s fun p _ => p = c.payload := by
  refine (safe_materialize hs v).mono ?_
  intro _ s' _ hlater hanswer
  obtain ⟨c', hc', rfl⟩ := hanswer
  rw [hlater.shown? hc] at hc'
  rw [Option.some.inj hc']

theorem safe_addColumn (hs : s.Sound C B) {c : Column} (hc : C c) :
    Safe (Sound C B) (addColumn c) s fun _ _ => True := by
  obtain ⟨hs', hlater⟩ := hs.addStorage c.shape (.host c.payload) rfl (unshared_host s _) hc
  exact (Safe.modifyGet (f := fun s => s.addStorage c.shape (.host c.payload)) hs' hlater).mono
    fun _ _ _ _ _ => trivial

theorem safe_config (hs : s.Sound C B) : Safe (Sound C B) config s fun _ _ => True := by
  have halike : s.Alike { s with config := some s.settledConfig } := ⟨rfl, rfl, rfl, Nat.le_refl _⟩
  exact (Safe.modifyGet (hs.alike halike rfl) (halike.later rfl rfl)).mono fun _ _ _ _ _ => trivial

end Action

/-! ## Making vectors -/

namespace Action

variable {T : Limits} {C : Column → Prop} {B : Builder → Prop} {s : Session}

theorem safe_extended (h : Invariant T C B) (hs : s.Sound C B) {b : Builder} (hb : B b) (a : Addition) :
    Safe (Sound C B) (extended b a) s fun b' _ => B b' := by
  cases a with
  | rows r =>
    refine (Safe.act hs).mono ?_
    intro b' _ _ _ hanswer
    obtain ⟨-, happend⟩ := hanswer
    exact h.append hb happend
  | vector v =>
    refine (safe_shape hs v).bindSame ?_
    intro _ hanswer
    obtain ⟨c, hc, rfl⟩ := hanswer
    refine (Safe.act hs).bindSame ?_
    intro _ _
    refine (safe_payload hs hc).bind ?_
    intro _ s' hs' _ hanswer
    subst hanswer
    refine (Safe.act hs').mono ?_
    intro b' _ _ _ hanswer
    obtain ⟨-, happend⟩ := hanswer
    exact h.appendColumn hb (hs.shown hc) happend

theorem safe_extendedAll (h : Invariant T C B) (hs : s.Sound C B) {b : Builder} (hb : B b)
    (as : List Addition) : Safe (Sound C B) (extendedAll b as) s fun b' _ => B b' := by
  induction as generalizing s b with
  | nil => exact .pure hs hb
  | cons a as ih =>
    refine (safe_extended h hs hb a).bind ?_
    intro b' s' hs' _ hb'
    exact ih hs' hb'

/-! ### Builders -/

theorem safe_buildOnHost (h : Invariant T C B) (hs : s.Sound C B) {b : Builder} (hb : B b) :
    Safe (Sound C B) (buildOnHost b) s fun p _ => B p.2 := by
  refine (Safe.act hs).bindSame ?_
  intro _ hopen
  refine (safe_log hs _).bind ?_
  intro _ s' hs' _ _
  refine (safe_addColumn hs' (h.column hb (Builder.requireOpen_eq_ok.mp hopen))).bind ?_
  intro id s'' hs'' _ _
  exact .pure hs'' (h.finish hb)

theorem safe_buildOnDevice (h : Invariant T C B) (hs : s.Sound C B) {b : Builder} (hb : B b) {i : Nat}
    (hi : i < s.runtimes.size) : Safe (Sound C B) (buildOnDevice b i) s fun p _ => B p.2 := by
  refine (Safe.act hs).bindSame ?_
  intro _ hopen
  have hc : C b.column := h.column hb (Builder.requireOpen_eq_ok.mp hopen)
  rcases hup : (s.runtime i).uploadAll b.payload.buffers with ⟨sent, r⟩
  have hsend : (send i b.payload.buffers).exec s = (.ok sent, s.setRuntime i r) := by
    simp only [send, exec_bind, exec_get, hup, exec_modify, exec_pure]
  cases sent with
  | error e =>
    obtain ⟨hs', hlater, -⟩ := hs.setRuntime hi (Runtime.keeps_of_uploadAll_error hup)
    refine (Safe.of_exec hsend hs' hlater).bind ?_
    rintro _ _ hs' _ ⟨rfl, rfl⟩
    exact .throw hs'
  | ok allocations =>
    obtain ⟨hs', hlater, -⟩ := hs.setRuntime hi (Runtime.of_uploadAll hup).1
    refine (Safe.of_exec hsend hs' hlater).bind ?_
    rintro _ _ hs' _ ⟨rfl, rfl⟩
    refine (safe_log hs' _).bind ?_
    intro _ s₂ hs₂ _ hanswer
    subst hanswer
    -- What was sent lies there.
    have hcontent : ((s.setRuntime i r).log (.builtOnDevice b.kind b.rows b.nulls)).payloadOf
        ⟨b.shape, .device ⟨i, allocations⟩, 1⟩ = b.payload := payloadOf_of_uploadAll (h.suits hc) hup
    obtain ⟨hs₃, hlater₃⟩ := hs₂.addStorage b.shape (.device ⟨i, allocations⟩)
      (by rw [hcontent]; rfl)
      ((hs.coherent.unshared_of_uploadAll hi hup).log _)
      (by
        rw [columnOf, hcontent]
        exact hc)
    refine (Safe.modifyGet (f := fun s => s.addStorage b.shape (.device ⟨i, allocations⟩)) hs₃
      hlater₃).bind ?_
    intro id s₄ hs₄ _ _
    exact .pure hs₄ (h.finish hb)

theorem safe_build (h : Invariant T C B) (hs : s.Sound C B) {b : Builder} (hb : B b) :
    Safe (Sound C B) (build b) s fun p _ => B p.2 := by
  refine (safe_config hs).bind ?_
  intro c s' hs' _ _
  split
  · exact safe_buildOnDevice h hs' hb hs'.coherent.default
  · exact safe_buildOnHost h hs' hb

theorem safe_giveUp (hs : s.Sound C B) :
    Safe (Sound C B) (modify (·.reclaim .builder true)) s fun _ _ => True := by
  have halike := alike_reclaim s .builder true
  have hbuilders := builders_reclaim s .builder true
  have hlater := halike.later (vectors_reclaim s .builder true) hbuilders
  exact (Safe.modify (f := (·.reclaim .builder true)) (hs.alike halike hbuilders) hlater).mono
    fun _ _ _ _ _ => trivial

theorem safe_assemble (h : Invariant T C B) (hs : s.Sound C B) (r : Recipe) :
    Safe (Sound C B) (assemble r) s fun _ _ => True := by
  rw [assemble_eq]
  refine (Safe.act hs).bindSame ?_
  intro b hcreate
  have halike : s.Alike { s with ledger := s.ledger.register } := ⟨rfl, rfl, rfl, Nat.le_succ _⟩
  refine (Safe.modify (hs.alike halike rfl) (halike.later rfl rfl)).bind ?_
  intro _ s₁ hs₁ _ _
  refine Safe.tryCatch ?_ ?_
  · refine (safe_extendedAll h hs₁ (h.create hcreate) r.additions).bind ?_
    intro b' s₂ hs₂ _ hb'
    refine (safe_build h hs₂ hb').bind ?_
    intro p s₃ hs₃ _ _
    refine (safe_giveUp hs₃).bind ?_
    intro _ s₄ hs₄ _ _
    exact .pure hs₄ trivial
  · intro stop s₂ hs₂ _
    refine (safe_giveUp hs₂).bind ?_
    intro _ s₃ hs₃ _ _
    exact .throw hs₃

/-! ### Other vectors -/

theorem safe_ofParts (h : Invariant T C B) (hs : s.Sound C B) {k : Kind} {n : Nat} {data : Bytes}
    {validity : Option Bytes} (hn : T = .unlimited) :
    Safe (Sound C B) (ofParts k n data validity) s fun _ _ => True := by
  refine (Safe.act hs).bindSame ?_
  intro c hc
  exact safe_addColumn hs (h.ofParts hn hc)

theorem safe_share (hs : s.Sound C B) (v : String) : Safe (Sound C B) (share v) s fun _ _ => True := by
  refine (safe_storage hs v).bindSame ?_
  intro p hanswer
  obtain ⟨id, st⟩ := p
  obtain ⟨-, hst⟩ := hanswer
  obtain ⟨hs', hlater⟩ := hs.setStorage { st with handles := st.handles + 1 } hst rfl rfl rfl
  refine (Safe.modify hs' hlater).bindTo ?_
  intro _
  exact .pure hs' trivial

theorem safe_cast (h : Invariant T C B) (hs : s.Sound C B) (v : String) (target : Kind) :
    Safe (Sound C B) (cast v target) s fun _ _ => True := by
  refine (safe_shape hs v).bindSame ?_
  intro _ hanswer
  obtain ⟨c, hc, rfl⟩ := hanswer
  refine (Safe.act hs).bindSame ?_
  intro rule _
  refine (safe_payload hs hc).bind ?_
  intro _ s' hs' _ hanswer
  subst hanswer
  refine (safe_log hs' _).bind ?_
  intro _ s₂ hs₂ _ _
  have hadd (s₃ : Session) (hs₃ : s₃.Sound C B) : Safe (Sound C B)
      (do addColumn (← ((c.shape.column c.payload).cast target).act)) s₃ fun _ _ => True := by
    refine (Safe.act hs₃).bindSame ?_
    intro c' hcast
    exact safe_addColumn hs₃ (h.cast (hs.shown hc) hcast)
  split
  · refine (Safe.act hs₂).bind ?_
    intro _ s₃ hs₃ _ _
    exact hadd s₃ hs₃
  · exact hadd s₂ hs₂

theorem safe_shapes (hs : s.Sound C B) (vs : List String) :
    Safe (Sound C B) (vs.mapM shape) s fun shapes s' =>
      s = s' ∧ ∃ cs : List Column, vs.map s.shown? = cs.map some ∧ cs.map Column.shape = shapes := by
  induction vs with
  | nil => exact .pure hs ⟨rfl, [], rfl, rfl⟩
  | cons v vs ih =>
    rw [List.mapM_cons]
    refine (safe_shape hs v).bindSame ?_
    intro _ hanswer
    obtain ⟨c, hc, rfl⟩ := hanswer
    refine ih.bind ?_
    intro _ _ hs _ hanswer
    obtain ⟨rfl, cs, hcs, rfl⟩ := hanswer
    exact .pure hs ⟨rfl, c :: cs, by simp [hc, hcs], rfl⟩

theorem safe_takeAll (hs : s.Sound C B) {vs : List String} {cs : List Column}
    (hcs : vs.map s.shown? = cs.map some) (t : Concatenation) :
    Safe (Sound C B) (takeAll t vs) s fun taken _ =>
      cs.foldlM (fun t part => t.take part.rows part.payload) t = .ok taken := by
  induction vs generalizing s cs t with
  | nil =>
    obtain rfl : cs = [] := by simpa using hcs.symm
    exact .pure hs rfl
  | cons v vs ih =>
    obtain ⟨c, cs, rfl, hc, hcs⟩ := List.map_eq_cons_iff.mp hcs.symm
    refine (safe_shape hs v).bindSame ?_
    intro _ hanswer
    obtain ⟨c', hc', rfl⟩ := hanswer
    obtain rfl : c = c' := Option.some.inj (hc.trans hc')
    refine (safe_payload hs hc.symm).bind ?_
    intro _ s' hs' hlater hanswer
    subst hanswer
    refine (Safe.act hs').bindSame ?_
    intro taken htake
    refine (ih hs' (hlater.map_shown? hcs.symm) taken).mono ?_
    intro t' _ _ _ ht'
    rw [List.foldlM_cons, Outcome.bind_eq_ok]
    exact ⟨taken, htake, ht'⟩

theorem safe_concat (h : Invariant T C B) (hs : s.Sound C B) (vs : List String) :
    Safe (Sound C B) (concat vs) s fun _ _ => True := by
  refine (safe_shapes hs vs).bindSame ?_
  intro _ hanswer
  obtain ⟨cs, hcs, rfl⟩ := hanswer
  refine (Safe.act hs).bindSame ?_
  intro k hk
  refine (Safe.act hs).bindSame ?_
  intro started hstart
  refine (safe_takeAll hs hcs _).bind ?_
  intro taken s' hs' _ htaken
  refine (safe_log hs' _).bind ?_
  intro _ s₂ hs₂ _ _
  have hwhole : Column.concat cs =
      .ok ((Concatenation.shape k (cs.map Column.shape)).column taken.payload) := by
    rw [Column.concat, Outcome.bind_eq_ok]
    exact ⟨k, hk, Outcome.bind_eq_ok.mpr ⟨started, hstart, Outcome.bind_eq_ok.mpr ⟨taken, htaken, rfl⟩⟩⟩
  refine safe_addColumn hs₂ (h.concat (fun part hpart => ?_) hwhole)
  have hmem : some part ∈ vs.map s.shown? := hcs ▸ List.mem_map_of_mem hpart
  obtain ⟨v, -, hv⟩ := List.mem_map.mp hmem
  exact hs.shown hv

theorem safe_operate (h : Invariant T C B) (hs : s.Sound C B) (op : Operation) (out : Kind)
    (l r : String) : Safe (Sound C B) (operate op out l r) s fun _ _ => True := by
  refine (safe_shape hs l).bindSame ?_
  intro _ hanswer
  obtain ⟨cl, hl, rfl⟩ := hanswer
  refine (safe_shape hs r).bindSame ?_
  intro _ hanswer
  obtain ⟨cr, hr, rfl⟩ := hanswer
  refine (Safe.act hs).bindSame ?_
  intro _ _
  refine (safe_payload hs hr).bind ?_
  intro _ s₁ hs₁ hlater hanswer
  subst hanswer
  refine (safe_payload hs₁ (hlater.shown? hl)).bind ?_
  intro _ s₂ hs₂ _ hanswer
  subst hanswer
  refine (safe_log hs₂ _).bind ?_
  intro _ s₃ hs₃ _ _
  refine (Safe.act hs₃).bindSame ?_
  intro c hop
  exact safe_addColumn hs₃ (h.operate (hs.shown hl) (hs.shown hr) hop)

theorem safe_operateScalar (h : Invariant T C B) (hs : s.Sound C B) (op : Operation) (out : Kind)
    (l : String) (r : Scalar) : Safe (Sound C B) (operateScalar op out l r) s fun _ _ => True := by
  refine (safe_shape hs l).bindSame ?_
  intro _ hanswer
  obtain ⟨cl, hl, rfl⟩ := hanswer
  refine (Safe.act hs).bindSame ?_
  intro _ _
  refine (safe_payload hs hl).bind ?_
  intro _ s₁ hs₁ _ hanswer
  subst hanswer
  refine (safe_log hs₁ _).bind ?_
  intro _ s₂ hs₂ _ _
  refine (Safe.act hs₂).bindSame ?_
  intro c hop
  exact safe_addColumn hs₂ (h.operateScalar (hs.shown hl) hop)

end Action

end Columnar
