/-
What a session does, deed by deed.

A deed is one change of a session (`Session.Does`), and what an action does to a session
is a run of deeds (`Session.Runs`): every transfer, every entry in the ledger and every
handle is one of them. A light deed changes neither names nor accounts; reading, and all
that only looks at vectors, is light (`Action.Light`). What weighs is left over
(`Deed.weights`): an action that makes a vector adds one storage (`Added`), and whoever
fails to fetch data stops with the device's error and fetches nothing more (`Blames`).
-/
import Columnar.Proofs.Concatenating

namespace Columnar

/-- A change of a session. -/
inductive Deed where
  /-- Something is logged, or the configuration is settled. -/
  | aside
  /-- The data of a storage is fetched from its runtime, all buffers of it, or is not. -/
  | fetch (id : Nat) (fetched : Except DeviceError (List Bytes))
  /-- Buffers are sent to a runtime in vain. -/
  | send (runtime : Nat)
  /-- A new storage on the host. -/
  | store (id : Nat)
  /-- A new storage on a runtime, where its buffers have been sent. -/
  | deploy (id runtime : Nat)
  /-- A builder is entered in the ledger. -/
  | enter
  /-- A builder without a name is given up on purpose. -/
  | giveUp
  /-- One more handle of a storage. -/
  | share (id : Nat)
  /-- A name is given to a storage. -/
  | bind (name : String) (id : Nat)
  /-- The handle under a name is given up, on purpose or not. -/
  | unbind (name : String) (released : Bool)
  | setBuilder (name : String)
  | dropBuilder (name : String)
  | newRuntime

namespace Deed

/-- Whether a deed leaves names and accounts as they are. -/
def isLight : Deed → Bool
  | aside | fetch _ _ | send _ => true
  | _ => false

def isFetch : Deed → Bool
  | fetch _ _ => true
  | _ => false

/-- The error for which data could not be fetched. -/
def miss? : Deed → Option DeviceError
  | fetch _ (.error e) => some e
  | _ => none

def misses (ds : List Deed) : List DeviceError := ds.filterMap miss?

def fetches (ds : List Deed) : List Deed := ds.filter isFetch

theorem misses_append (ds ds' : List Deed) : misses (ds ++ ds') = misses ds ++ misses ds' :=
  List.filterMap_append

theorem misses_of_fetches {ds : List Deed} (h : fetches ds = []) : misses ds = [] := by
  refine List.filterMap_eq_nil_iff.mpr fun d hd => ?_
  have hfetch := List.filter_eq_nil_iff.mp h d hd
  cases d with
  | fetch id x => exact absurd rfl hfetch
  | _ => rfl

/-- The deeds that change names or accounts. -/
def weights (ds : List Deed) : List Deed := ds.filter fun d => !d.isLight

theorem weights_append (ds ds' : List Deed) : weights (ds ++ ds') = weights ds ++ weights ds' :=
  List.filter_append ds ds'

/-- That a deed enters a new storage under a number. -/
def Adds (id : Nat) : Deed → Prop
  | store j => j = id
  | deploy j _ => j = id
  | _ => False

end Deed

namespace Session

/-- One deed: from a session to the next. -/
inductive Does : Session → Deed → Session → Prop where
  | aside {s : Session} (config : Option Config) (events : List Event) :
    Does s .aside { s with config := config, events := events }
  | fetch {s : Session} {id : Nat} {st : Storage} {d : DeviceCopy} {buffers : List Bytes} {r : Runtime}
      (hst : s.storages.find? id = some st) (hplace : st.place = .device d)
      (hdown : (s.runtime d.runtime).downloadAll d.allocations = (.ok buffers, r)) :
    Does s (.fetch id (.ok buffers)) ((s.setRuntime d.runtime r).setStorage id
      { st with place := .both (.ofBuffers st.shape buffers) d })
  | miss {s : Session} {id : Nat} {st : Storage} {d : DeviceCopy} {e : DeviceError} {r : Runtime}
      (hst : s.storages.find? id = some st) (hplace : st.place = .device d)
      (hdown : (s.runtime d.runtime).downloadAll d.allocations = (.error e, r)) :
    Does s (.fetch id (.error e)) (s.setRuntime d.runtime r)
  | send {s : Session} {i : Nat} {buffers : List Bytes} {e : DeviceError} {r : Runtime}
      (hup : (s.runtime i).uploadAll buffers = (.error e, r)) :
    Does s (.send i) (s.setRuntime i r)
  | store {s : Session} (shape : Shape) (p : Payload) :
    Does s (.store (s.ledger.registered + 1)) (s.addStorage shape (.host p)).2
  | deploy {s : Session} {b : Builder} {i : Nat} {allocations : List Allocation} {r : Runtime}
      (hsuits : b.elements.Suits b.kind)
      (hup : (s.runtime i).uploadAll b.payload.buffers = (.ok allocations, r)) :
    Does s (.deploy (s.ledger.registered + 1) i)
      ((s.setRuntime i r).addStorage b.shape (.device ⟨i, allocations⟩)).2
  | enter {s : Session} : Does s .enter { s with ledger := s.ledger.register }
  | giveUp {s : Session} : Does s .giveUp (s.reclaim .builder true)
  | share {s : Session} {id : Nat} {st : Storage} (hst : s.storages.find? id = some st) :
    Does s (.share id) (s.setStorage id { st with handles := st.handles + 1 })
  | bind {s : Session} (name : String) (id : Nat) :
    Does s (.bind name id) { s with vectors := s.vectors.insert name id }
  | unbind {s : Session} (name : String) (released : Bool) :
    Does s (.unbind name released) (s.unbind name released)
  | setBuilder {s : Session} (name : String) (b : Builder) :
    Does s (.setBuilder name) (s.setBuilder name b)
  | dropBuilder {s : Session} (name : String) : Does s (.dropBuilder name) (s.dropBuilder name)
  | newRuntime {s : Session} (name : String) (plan : FaultPlan)
      (hfresh : s.runtimes.find? s.runtimes.size = none) :
    Does s .newRuntime { s.setRuntime s.runtimes.size { plan := plan } with
      runtimeNames := s.runtimeNames.insert name s.runtimes.size }

/-- Deeds in a row. -/
inductive Runs : Session → List Deed → Session → Prop where
  | nil (s : Session) : Runs s [] s
  | cons {s t u : Session} {d : Deed} {ds : List Deed} (hd : s.Does d t) (hds : Runs t ds u) :
    Runs s (d :: ds) u

variable {s t u : Session} {d : Deed} {ds ds' : List Deed}

theorem Does.runs (h : s.Does d t) : s.Runs [d] t := .cons h (.nil t)

theorem Runs.append (h : s.Runs ds t) (h' : t.Runs ds' u) : s.Runs (ds ++ ds') u := by
  induction h with
  | nil => exact h'
  | cons hd _ ih => exact .cons hd (ih h')

/-- **What every deed keeps**, a run of deeds keeps. -/
theorem Runs.keeps {P : Session → Prop} (hstep : ∀ {s t d}, P s → s.Does d t → P t) (h : s.Runs ds t)
    (hs : P s) : P t := by
  induction h with
  | nil => exact hs
  | cons hd _ ih => exact ih (hstep hs hd)

theorem isSome_addStorage (s : Session) (shape : Shape) (place : Place) :
    ((s.addStorage shape place).2.storages.find? (s.ledger.registered + 1)).isSome := by
  rw [find?_addStorage, if_pos rfl]
  rfl

theorem does_log (s : Session) (e : Event) : s.Does .aside (s.log e) := .aside s.config (s.events ++ [e])

end Session

/-! ## Giving up a handle -/

namespace Session

variable {s t : Session} {d : Deed}

/-- The session that is left once the handle under a name is given up. -/
inductive Unbound (s : Session) (name : String) (released : Bool) : Session → Prop where
  | absent (hid : s.vectors.find? name = none) : Unbound s name released s
  | dangling {id : Nat} (hid : s.vectors.find? name = some id) (hst : s.storages.find? id = none) :
    Unbound s name released { s with vectors := s.vectors.erase name }
  /-- The last handle: the storage goes, with all that it has on a runtime. -/
  | last {id : Nat} {st : Storage} (hid : s.vectors.find? name = some id)
      (hst : s.storages.find? id = some st) (hlast : st.handles ≤ 1) :
    Unbound s name released
      ((({ s with vectors := s.vectors.erase name, storages := s.storages.erase id } :
        Session).freePlace st.place).reclaim .vector released)
  | shared {id : Nat} {st : Storage} (hid : s.vectors.find? name = some id)
      (hst : s.storages.find? id = some st) (hmore : 1 < st.handles) :
    Unbound s name released
      (({ s with vectors := s.vectors.erase name } : Session).setStorage id
        { st with handles := st.handles - 1 })

theorem unbound_unbind (s : Session) (name : String) (released : Bool) :
    s.Unbound name released (s.unbind name released) := by
  unfold Session.unbind
  cases hid : s.vectors.find? name with
  | none => exact .absent hid
  | some id =>
    simp only [releaseHandle]
    cases hst : s.storages.find? id with
    | none => exact .dangling hid hst
    | some st =>
      simp only
      split
      next hlast => exact .last hid hst hlast
      next hmore => exact .shared hid hst (Nat.lt_of_not_le hmore)

theorem ledger_freePlace (s : Session) (p : Place) : (s.freePlace p).ledger = s.ledger := by
  unfold Session.freePlace
  split <;> rfl

/-! ## The ledger -/

/-- Whether the handle under a name is the last one of its storage. -/
def lastHandle (s : Session) (name : String) : Bool :=
  match s.storage? name with
  | some (_, st) => st.handles ≤ 1
  | none => false

/-- A ledger once the handle under a name is given up. -/
def ledgerUnbound (s : Session) (name : String) (released : Bool) (l : Ledger) : Ledger :=
  if s.lastHandle name then l.reclaim released else l

/-- A ledger once the builder under a name is dropped: one that is still open leaks. -/
def ledgerDropped (s : Session) (name : String) (l : Ledger) : Ledger :=
  match s.builders.find? name with
  | some b => l.reclaim (b.phase ≠ Phase.opened)
  | none => l

/-- The ledger after a deed. -/
def ledgerAfter (s : Session) : Deed → Ledger
  | .store _ | .deploy _ _ | .enter => s.ledger.register
  | .giveUp => s.ledger.reclaim true
  | .unbind name released => s.ledgerUnbound name released s.ledger
  | .dropBuilder name => s.ledgerDropped name s.ledger
  | _ => s.ledger

theorem Unbound.ledger {name : String} {released : Bool} (h : s.Unbound name released t) :
    t.ledger = s.ledgerUnbound name released s.ledger := by
  unfold ledgerUnbound lastHandle
  cases h with
  | absent hid => simp [storage?, hid]
  | dangling hid hst => simp [storage?, hid, hst]
  | last hid hst hlast =>
    rw [storage?_eq_some.mpr ⟨hid, hst⟩, ledger_reclaim, ledger_freePlace]
    simp [hlast]
  | shared hid hst hmore =>
    rw [storage?_eq_some.mpr ⟨hid, hst⟩]
    simp [Nat.not_le_of_lt hmore, setStorage]

theorem ledger_dropBuilder (s : Session) (name : String) :
    (s.dropBuilder name).ledger = s.ledgerDropped name s.ledger := by
  unfold Session.dropBuilder ledgerDropped
  cases s.builders.find? name with
  | none => rfl
  | some b => exact ledger_reclaim _ _ _

/-- **The ledger** changes with what weighs only. -/
theorem Does.ledger (h : s.Does d t) : t.ledger = s.ledgerAfter d := by
  cases h with
  | giveUp => exact ledger_reclaim _ _ _
  | unbind name released => exact (unbound_unbind s name released).ledger
  | dropBuilder name => exact ledger_dropBuilder s name
  | _ => rfl

theorem registered_reclaim (l : Ledger) (released : Bool) : (l.reclaim released).registered = l.registered := by
  cases released <;> rfl

/-- Entries are not taken back. -/
theorem Does.registered (h : s.Does d t) : s.ledger.registered ≤ t.ledger.registered := by
  rw [h.ledger]
  cases d with
  | store | deploy | enter => exact Nat.le_succ _
  | unbind name released =>
    simp only [ledgerAfter, ledgerUnbound]
    split
    · exact Nat.le_of_eq (registered_reclaim _ _).symm
    · exact Nat.le_refl _
  | dropBuilder name =>
    simp only [ledgerAfter, ledgerDropped]
    split
    · exact Nat.le_of_eq (registered_reclaim _ _).symm
    · exact Nat.le_refl _
  | _ => exact Nat.le_refl _

end Session

/-- **Who is to blame**: no data is missed, or data is missed once, nothing is fetched
after that, and `P` holds of the device's error. -/
inductive Blames (P : DeviceError → Prop) (ds : List Deed) : Prop where
  | clean (h : Deed.misses ds = [])
  | missed {l r : List Deed} {id : Nat} {e : DeviceError} (hds : ds = l ++ .fetch id (.error e) :: r)
      (hpre : Deed.misses l = []) (hpost : Deed.fetches r = []) (he : P e)

namespace Blames

variable {P Q : DeviceError → Prop} {ds ds' : List Deed}

theorem mono (h : Blames P ds) (hPQ : ∀ e, P e → Q e) : Blames Q ds := by
  cases h with
  | clean h => exact .clean h
  | missed hds hpre hpost he => exact .missed hds hpre hpost (hPQ _ he)

theorem misses_eq_nil (h : Blames P ds) (hP : ∀ e, ¬ P e) : Deed.misses ds = [] := by
  cases h with
  | clean h => exact h
  | missed _ _ _ he => exact absurd he (hP _)

theorem append_left (h : Deed.misses ds = []) (h' : Blames P ds') : Blames P (ds ++ ds') := by
  cases h' with
  | clean h' => exact .clean (by rw [Deed.misses_append, h, h']; rfl)
  | missed hds hpre hpost he =>
    refine .missed (l := ds ++ _) (by rw [hds, List.append_assoc]) ?_ hpost he
    rw [Deed.misses_append, h, hpre]
    rfl

theorem append_right (h : Blames P ds) (h' : Deed.fetches ds' = []) : Blames P (ds ++ ds') := by
  cases h with
  | clean h => exact .clean (by rw [Deed.misses_append, h, Deed.misses_of_fetches h']; rfl)
  | @missed l r id e hds hpre hpost he =>
    refine .missed (r := r ++ ds') (by rw [hds, List.append_assoc, List.cons_append]) hpre ?_ he
    rw [Deed.fetches, List.filter_append, ← Deed.fetches, ← Deed.fetches, hpost, h']
    rfl

end Blames

open Session

namespace Action

variable {α β : Type}

/-! ## What an action does -/

/-- That an action does some deeds, and `Q` holds of its answer, the deeds and the session
that they lead to. -/
def Performs (x : Action α) (s : Session) (Q : Except Stop α → List Deed → Session → Prop) : Prop :=
  ∃ ds, s.Runs ds (x.exec s).2 ∧ Q (x.exec s).1 ds (x.exec s).2

/-- What an answer tells of deeds: it is the error for which data was missed, and what
weighs is as `W` says. -/
structure Telling (W : Except Stop α → List Deed → Session → Prop) (answer : Except Stop α)
    (ds : List Deed) (s : Session) : Prop where
  blames : Blames (fun e => answer = .error (.fault (.refused (.device e)))) ds
  weighs : W answer (Deed.weights ds) s

/-- That nothing weighs. -/
def Weightless (_ : Except Stop α) (ws : List Deed) (_ : Session) : Prop := ws = []

/-- That a new storage is added under the number in the answer, or nothing if there is none. -/
def Added : Except Stop Nat → List Deed → Session → Prop
  | .ok id, ws, s => (∃ d, d.Adds id ∧ ws = [d]) ∧ (s.storages.find? id).isSome
  | .error _, ws, _ => ws = []

namespace Performs

variable {s : Session} {V : Except Stop α → List Deed → Session → Prop}
  {W : Except Stop β → List Deed → Session → Prop}

theorem of_exec {x : Action α} {a : Except Stop α} {s' : Session} {ds : List Deed}
    {Q : Except Stop α → List Deed → Session → Prop} (hx : x.exec s = (a, s')) (hruns : s.Runs ds s')
    (hQ : Q a ds s') : Performs x s Q :=
  ⟨ds, by rwa [hx], by rwa [hx]⟩

theorem congr {x y : Action α} {Q : Except Stop α → List Deed → Session → Prop} (hx : x.exec s = y.exec s)
    (hy : Performs y s Q) : Performs x s Q := by
  obtain ⟨ds, hruns, hQ⟩ := hy
  exact of_exec hx hruns hQ

/-- An action that leaves the session as it is. -/
theorem same {x : Action α} {a : Except Stop α} (hx : x.exec s = (a, s)) (hV : V a [] s) :
    Performs x s (Telling V) :=
  of_exec hx (.nil s) ⟨.clean rfl, hV⟩

/-- Deeds that miss nothing. -/
theorem clean {x : Action α} {answer : Except Stop α} {s' : Session} {ds : List Deed}
    (hx : x.exec s = (answer, s')) (hruns : s.Runs ds s') (hmisses : Deed.misses ds = [])
    (hV : V answer (Deed.weights ds) s') : Performs x s (Telling V) :=
  of_exec hx hruns ⟨.clean hmisses, hV⟩

theorem mono {x : Action α} {Q Q' : Except Stop α → List Deed → Session → Prop} (hx : Performs x s Q)
    (h : ∀ answer ds s', Q answer ds s' → Q' answer ds s') : Performs x s Q' := by
  obtain ⟨ds, hruns, hQ⟩ := hx
  exact ⟨ds, hruns, h _ _ _ hQ⟩

theorem weaken {x : Action α} {V' : Except Stop α → List Deed → Session → Prop}
    (hx : Performs x s (Telling V)) (h : ∀ answer ws s', V answer ws s' → V' answer ws s') :
    Performs x s (Telling V') :=
  hx.mono fun _ _ _ hQ => ⟨hQ.blames, h _ _ _ hQ.weighs⟩

/-- **In a row**: what the first action has done comes before what the second does. -/
theorem bind {x : Action α} {f : α → Action β} (hx : Performs x s (Telling V))
    (hok : ∀ a ws s', V (.ok a) ws s' →
      Performs (f a) s' (Telling fun answer ws' s'' => W answer (ws ++ ws') s''))
    (herror : ∀ stop ws s', V (.error stop) ws s' → W (.error stop) ws s') :
    Performs (x >>= f) s (Telling W) := by
  obtain ⟨ds, hruns, hblames, hweighs⟩ := hx
  rcases h : x.exec s with ⟨stop | a, s'⟩
  · rw [h] at hruns hblames hweighs
    exact of_exec (exec_bind_error h) hruns
      ⟨hblames.mono fun e he => by cases he; rfl, herror stop _ s' hweighs⟩
  · rw [h] at hruns hblames hweighs
    obtain ⟨ds', hruns', hblames', hweighs'⟩ := hok a _ s' hweighs
    refine of_exec (a := ((f a).exec s').1) (exec_bind_ok h) (hruns.append hruns') ⟨?_, ?_⟩
    · exact .append_left (hblames.misses_eq_nil fun e he => by cases he) hblames'
    · rw [Deed.weights_append]
      exact hweighs'

/-- After deeds that miss nothing. -/
theorem after {x : Action α} {f : α → Action β} {a : α} {s' : Session} {ds : List Deed}
    (hx : x.exec s = (.ok a, s')) (hruns : s.Runs ds s') (hmisses : Deed.misses ds = [])
    (hf : Performs (f a) s' (Telling fun answer ws s'' => W answer (Deed.weights ds ++ ws) s'')) :
    Performs (x >>= f) s (Telling W) := by
  refine (clean (V := fun answer ws t => answer = .ok a ∧ ws = Deed.weights ds ∧ t = s') hx hruns hmisses
    ⟨rfl, rfl, rfl⟩).bind ?_ ?_
  · rintro _ _ _ ⟨⟨⟩, rfl, rfl⟩
    exact hf
  · rintro _ _ _ ⟨⟨⟩, -, -⟩

end Performs

/-! ## Light actions -/

/-- That an action changes neither names nor accounts, in any session. -/
def Light (x : Action α) : Prop := ∀ s, Performs x s (Telling Weightless)

namespace Light

theorem of_same {x : Action α} (h : ∀ s, (x.exec s).2 = s) : Light x := fun s =>
  .same (a := (x.exec s).1) (Prod.ext rfl (h s)) rfl

theorem pure (a : α) : Light (pure a) := of_same fun _ => rfl

theorem throw (stop : Stop) : Light (throw stop : Action α) := of_same fun _ => rfl

theorem get : Light get := of_same fun _ => rfl

theorem act (x : Outcome α) : Light x.act := of_same fun s => by rw [exec_act]

theorem named (name : String) (x : Option α) : Light (named name x) := of_same fun s => by rw [exec_named]

/-- A light action, and then another that has done what `W` says. -/
theorem andThen {x : Action α} {f : α → Action β} {W : Except Stop β → List Deed → Session → Prop}
    (hx : Light x) (hf : ∀ a s, Performs (f a) s (Telling W)) (hW : ∀ stop s, W (.error stop) [] s)
    (s : Session) : Performs (x >>= f) s (Telling W) := by
  refine (hx s).bind (fun a ws s' hws => ?_) fun stop ws s' hws => ?_
  · obtain rfl : ws = [] := hws
    exact hf a s'
  · obtain rfl : ws = [] := hws
    exact hW stop s'

theorem bind {x : Action α} {f : α → Action β} (hx : Light x) (hf : ∀ a, Light (f a)) : Light (x >>= f) :=
  hx.andThen hf fun _ _ => rfl

theorem log (e : Event) : Light (modify (·.log e) : Action Unit) := fun s =>
  .clean (exec_modify _ s) (does_log s e).runs rfl rfl

theorem ite {x y : Action α} {p : Prop} [Decidable p] (hx : Light x) (hy : Light y) :
    Light (if p then x else y) := by
  split
  · exact hx
  · exact hy

end Light

theorem light_storage (v : String) : Light (storage v) := .bind .get fun _ => .named v _

theorem light_shape (v : String) : Light (shape v) := (light_storage v).bind fun _ => .pure _

/-- All buffers are asked for, and the data stays on the host once they are there. -/
theorem exec_fetch (id : Nat) (st : Storage) (d : DeviceCopy) (s : Session) :
    (fetch id st d).exec s =
      match (s.runtime d.runtime).downloadAll d.allocations with
      | (.error e, r) => (.error (.fault (.refused (.device e))), s.setRuntime d.runtime r)
      | (.ok buffers, r) => (.ok (.ofBuffers st.shape buffers), (s.setRuntime d.runtime r).setStorage id
          { st with place := .both (.ofBuffers st.shape buffers) d }) := by
  rcases hdown : (s.runtime d.runtime).downloadAll d.allocations with ⟨e | buffers, r⟩ <;>
    simp only [fetch, exec_bind, exec_get, hdown, exec_modify, exec_throw, exec_pure]

/-- **Fetching** is one deed. -/
theorem performs_fetch {s : Session} {id : Nat} {st : Storage} {d : DeviceCopy}
    (hst : s.storages.find? id = some st) (hplace : st.place = .device d) :
    Performs (fetch id st d) s (Telling Weightless) := by
  have hx := exec_fetch id st d s
  rcases hdown : (s.runtime d.runtime).downloadAll d.allocations with ⟨e | buffers, r⟩
  all_goals rw [hdown] at hx
  · exact .of_exec hx (Does.miss hst hplace hdown).runs
      ⟨.missed (l := []) (r := []) rfl rfl rfl rfl, rfl⟩
  · exact .clean hx (Does.fetch hst hplace hdown).runs rfl rfl

/-- What needs the data of a vector that lies on a runtime fetches it. -/
theorem exec_materialize_device {s : Session} {v : String} {id : Nat} {st : Storage} {d : DeviceCopy}
    (hv : s.storage? v = some (id, st)) (hplace : st.place = .device d) :
    (materialize v).exec s = (fetch id st d).exec (s.log (.materializing st.shape.rows)) := by
  obtain ⟨hid, hst⟩ := storage?_eq_some.mp hv
  simp only [materialize, exec_bind, exec_storage hid hst, hplace, exec_modify]

/-- What needs the data of a vector on the host finds it there. -/
theorem exec_materialize_host {s : Session} {v : String} {id : Nat} {st : Storage} {p : Payload}
    (hv : s.storage? v = some (id, st)) (hplace : st.place = .host p ∨ ∃ d, st.place = .both p d) :
    (materialize v).exec s = (.ok p, s) := by
  obtain ⟨hid, hst⟩ := storage?_eq_some.mp hv
  rcases hplace with hplace | ⟨d, hplace⟩ <;>
    simp only [materialize, exec_bind, exec_storage hid hst, hplace, exec_pure]

theorem light_materialize (v : String) : Light (materialize v) := by
  intro s
  cases hv : s.storage? v with
  | none =>
    have hx : (materialize v).exec s = (.error (.noSuchObject v), s) :=
      exec_bind_error (exec_storage_none hv)
    exact .same hx rfl
  | some p =>
    obtain ⟨id, st⟩ := p
    cases hplace : st.place with
    | host p => exact .same (exec_materialize_host hv (.inl hplace)) rfl
    | both p d => exact .same (exec_materialize_host hv (.inr ⟨d, hplace⟩)) rfl
    | device d =>
      have hx : (materialize v).exec s =
          (do modify (·.log (.materializing st.shape.rows)); fetch id st d : Action Payload).exec s := by
        rw [exec_materialize_device hv hplace, exec_bind_ok (exec_modify _ s)]
      refine .congr hx (.after (exec_modify _ s) (does_log s _).runs rfl ?_)
      exact performs_fetch (s := s.log _) (storage?_eq_some.mp hv).2 hplace

/-! ## Reading -/

theorem light_read {f : Payload → Outcome α} (v : String) : Light (do (f (← materialize v)).act) :=
  (light_materialize v).bind fun _ => .act _

theorem light_info (v : String) : Light (info v) := (light_storage v).bind fun _ => .pure _

theorem light_isNull (v : String) (i : Nat) : Light (isNull v i) :=
  (light_shape v).bind fun _ => (Light.act _).bind fun _ => .ite (.pure _) (light_read v)

theorem light_isNullExtended (v : String) (i : Nat) : Light (isNullExtended v i) := by
  refine (light_shape v).bind fun sh => .ite (.pure _) ((light_materialize v).bind fun p => ?_)
  split
  · exact .pure _
  · exact .ite (.pure _) (.act _)

theorem light_validityBits (v : String) : Light (validityBits v) :=
  (light_shape v).bind fun _ => .ite (.pure _) ((light_materialize v).bind fun _ => .pure _)

theorem light_element (v : String) (f : Primitive) (i : Nat) : Light (element v f i) :=
  (light_shape v).bind fun _ => (Light.act _).bind fun _ => (Light.act _).bind fun _ => light_read v

theorem light_text (v : String) (i : Nat) : Light (text v i) :=
  (light_shape v).bind fun _ => (Light.act _).bind fun _ => light_read v

theorem light_scalar (v : String) (i : Nat) : Light (scalar v i) :=
  (light_shape v).bind fun _ => (Light.act _).bind fun _ => light_read v

theorem light_scanRows (v : String) (f : Primitive) (start count : Nat) :
    Light (scanRows v f start count) := by
  induction count generalizing start with
  | zero => exact .pure _
  | succ count ih =>
    refine (light_isNull v start).bind fun null => ?_
    cases null with
    | true => exact (Light.pure _).bind fun _ => (ih _).bind fun _ => .pure _
    | false =>
      rw [if_neg (by decide), map_eq_pure_bind]
      refine Light.bind ((light_element v f start).bind fun _ => .pure _) fun _ => ?_
      exact (ih _).bind fun _ => .pure _

theorem light_scan (v : String) (f : Primitive) (start count : Nat) : Light (scan v f start count) :=
  (light_shape v).bind fun _ => (Light.act _).bind fun _ =>
    .ite (.throw _) (light_scanRows v f start count)

theorem light_scalars (v : String) (start count : Nat) : Light (scalars v start count) := by
  induction count generalizing start with
  | zero => exact .pure _
  | succ count ih => exact (light_scalar v start).bind fun _ => (ih _).bind fun _ => .pure _

theorem light_view (v : String) : Light (view v) :=
  (light_shape v).bind fun _ => (light_materialize v).bind fun _ => .pure _

/-! ## Making vectors -/

/-- That a builder, if there is one, has elements of its kind, and nothing weighs. -/
def Suited (answer : Except Stop Builder) (ws : List Deed) (_ : Session) : Prop :=
  ws = [] ∧ ∀ b, answer = .ok b → b.elements.Suits b.kind

theorem performs_extended {b : Builder} (hb : b.elements.Suits b.kind) (a : Addition) (s : Session) :
    Performs (extended b a) s (Telling Suited) := by
  cases a with
  | rows r =>
    refine .same (exec_act _ s) ⟨rfl, fun b' hb' => ?_⟩
    cases happend : b.append r with
    | error f =>
      rw [happend] at hb'
      cases hb'
    | ok after =>
      rw [happend] at hb'
      cases hb'
      obtain ⟨hkind, hsuits⟩ := Builder.suits_append hb happend
      exact hkind ▸ hsuits
  | vector v =>
    refine (light_shape v).andThen (fun source s => ?_) (by simp [Suited]) s
    refine (Light.act _).andThen (fun _ s => ?_) (by simp [Suited]) s
    refine (light_materialize v).andThen (fun p s => ?_) (by simp [Suited]) s
    refine .same (exec_act _ s) ⟨rfl, fun b' hb' => ?_⟩
    cases happend : b.appendColumn source p with
    | error f =>
      rw [happend] at hb'
      cases hb'
    | ok after =>
      rw [happend] at hb'
      cases hb'
      obtain ⟨-, -, e, validity, he, -, -, rfl⟩ := Builder.appendColumn_eq_ok happend
      exact Elements.suits_extend hb he

theorem performs_extendedAll {b : Builder} (hb : b.elements.Suits b.kind) (as : List Addition) (s : Session) :
    Performs (extendedAll b as) s (Telling Suited) := by
  induction as generalizing b s with
  | nil => exact .same (exec_pure b s) ⟨rfl, by rintro _ ⟨⟩; exact hb⟩
  | cons a as ih =>
    refine (performs_extended hb a s).bind (fun after ws s' hws => ?_) fun stop ws s' hws => ⟨hws.1, by simp⟩
    obtain ⟨rfl, hsuits⟩ := hws
    exact ih (hsuits after rfl) s'

theorem performs_addColumn (c : Column) (s : Session) : Performs (addColumn c) s (Telling Added) := by
  exact .clean (exec_modifyGet _ s) (Does.store c.shape c.payload).runs rfl
    ⟨⟨.store _, rfl, rfl⟩, isSome_addStorage _ _ _⟩

/-- The same of what makes a vector and returns a builder. -/
def AddedBy (answer : Except Stop (Nat × Builder)) : List Deed → Session → Prop :=
  Added (answer.map Prod.fst)

theorem performs_buildOnHost (b : Builder) (s : Session) : Performs (buildOnHost b) s (Telling AddedBy) := by
  by_cases hopen : b.phase = .opened
  · exact .of_exec (Builder.exec_buildOnHost hopen s) (.cons (does_log s _) (Does.store _ _).runs)
      ⟨.clean rfl, ⟨.store _, rfl, rfl⟩, isSome_addStorage _ _ _⟩
  · obtain ⟨e, he⟩ := Builder.exec_buildOnHost_of_ne hopen s
    exact .same he rfl

theorem performs_buildOnDevice {b : Builder} (hb : b.elements.Suits b.kind) (i : Nat) (s : Session) :
    Performs (buildOnDevice b i) s (Telling AddedBy) := by
  by_cases hopen : b.phase = .opened
  · rcases hup : (s.runtime i).uploadAll b.payload.buffers with ⟨e | allocations, r⟩
    · exact .of_exec (Builder.exec_buildOnDevice_error hopen hup) (Does.send hup).runs
        ⟨.clean rfl, rfl⟩
    · exact .of_exec (Builder.exec_buildOnDevice hopen hup)
        (.cons (does_log s _) (Does.deploy (s := s.log _) hb hup).runs)
        ⟨.clean rfl, ⟨.deploy _ i, rfl, rfl⟩, isSome_addStorage _ _ _⟩
  · obtain ⟨e, he⟩ := Builder.exec_buildOnDevice_of_ne hopen i s
    exact .same he rfl

theorem performs_build {b : Builder} (hb : b.elements.Suits b.kind) (s : Session) :
    Performs (build b) s (Telling AddedBy) := by
  refine .after (exec_modifyGet _ s) (Does.aside (some s.settledConfig) s.events).runs rfl ?_
  split
  · exact performs_buildOnDevice hb 0 _
  · exact performs_buildOnHost b _

/-- The deeds of a recipe: whatever comes of it, the builder that it needed is given up. -/
def Assembled (r : Recipe) : Except Stop Nat → List Deed → Session → Prop
  | .ok id, ws, s => (∃ d, d.Adds id ∧ ws = [.enter, d, .giveUp]) ∧ (s.storages.find? id).isSome
  | .error _, ws, _ =>
    match Builder.create r.kind r.capacity false with
    | .ok _ => ws = [.enter, .giveUp]
    | .error _ => ws = []

theorem exec_assemble {r : Recipe} {b : Builder} (hb : Builder.create r.kind r.capacity false = .ok b)
    (s : Session) :
    (assemble r).exec s =
      match (extendedAll b r.additions >>= build).exec { s with ledger := s.ledger.register } with
      | (.ok p, s') => (.ok p.1, s'.reclaim .builder true)
      | (.error stop, s') => (.error stop, s'.reclaim .builder true) := by
  simp only [assemble_eq, exec_bind, exec_act, hb, exec_modify, exec_tryCatch]
  rcases (extendedAll b r.additions).exec { s with ledger := s.ledger.register } with ⟨_ | after, s₁⟩
  · rfl
  · simp only
    rcases (build after).exec s₁ with ⟨_ | p, s₂⟩ <;> rfl

theorem performs_assemble (r : Recipe) (s : Session) :
    Performs (assemble r) s (Telling (Assembled r)) := by
  cases hb : Builder.create r.kind r.capacity false with
  | error f =>
    have hx : (assemble r).exec s = (.error (.fault f), s) := by
      simp only [assemble_eq, exec_bind, exec_act, hb]
    exact .same hx (by simp only [Assembled, hb])
  | ok b =>
    have hsuits : b.elements.Suits b.kind := by
      obtain ⟨-, rfl⟩ := Builder.create_eq_ok hb
      exact Elements.suits_empty _
    have hwork : Performs (extendedAll b r.additions >>= build) { s with ledger := s.ledger.register }
        (Telling AddedBy) := by
      refine (performs_extendedAll hsuits _ _).bind (fun after ws s' hws => ?_) fun stop ws s' hws => hws.1
      obtain ⟨rfl, hafter⟩ := hws
      exact performs_build (hafter after rfl) s'
    obtain ⟨ds, hruns, hblames, hweighs⟩ := hwork
    have hexec := exec_assemble hb s
    rcases hx : (extendedAll b r.additions >>= build).exec { s with ledger := s.ledger.register } with
      ⟨stop | p, s'⟩
    all_goals
      rw [hx] at hruns hblames hweighs hexec
      have hall : s.Runs ([.enter] ++ ds ++ [.giveUp]) (s'.reclaim .builder true) :=
        (Does.enter.runs.append hruns).append Does.giveUp.runs
      have hentered : Deed.misses [.enter] = [] := rfl
      have hgivenUp : Deed.fetches [.giveUp] = [] := rfl
      refine .of_exec hexec hall ⟨?_, ?_⟩
    · exact (hblames.append_left hentered).append_right hgivenUp
        |>.mono fun e he => by cases he; rfl
    · have hws : Deed.weights ds = [] := hweighs
      simp only [Deed.weights_append, hws, Assembled, hb]
      rfl
    · exact (hblames.append_left hentered).append_right hgivenUp
        |>.mono fun e he => by cases he
    · obtain ⟨⟨d, hd, hws⟩, hfound⟩ := hweighs
      refine ⟨⟨d, hd, ?_⟩, ?_⟩
      · simp only [Deed.weights_append, hws]
        rfl
      · rw [(alike_reclaim _ _ _).storages]
        exact hfound

/-- The deed of sharing a vector. -/
def Shared (s : Session) (v : String) : Except Stop Nat → List Deed → Session → Prop
  | .ok id, ws, s' => ws = [.share id] ∧ s.vectors.find? v = some id ∧ (s'.storages.find? id).isSome
  | .error _, ws, _ => ws = []

theorem performs_share (v : String) (s : Session) : Performs (share v) s (Telling (Shared s v)) := by
  cases hv : s.storage? v with
  | none => exact .same (exec_bind_error (exec_storage_none hv)) rfl
  | some p =>
    obtain ⟨id, st⟩ := p
    obtain ⟨hid, hst⟩ := storage?_eq_some.mp hv
    have hx : (share v).exec s = (.ok id, s.setStorage id { st with handles := st.handles + 1 }) := by
      simp only [share, exec_bind, exec_storage hid hst, exec_modify, exec_pure]
    refine .clean hx (Does.share hst).runs rfl ⟨rfl, hid, ?_⟩
    rw [find?_setStorage]
    simp

/-- What adds a column in the end. -/
theorem Light.adds {x : Action α} {f : α → Action Nat} (hx : Light x)
    (hf : ∀ a s, Performs (f a) s (Telling Added)) (s : Session) : Performs (x >>= f) s (Telling Added) :=
  hx.andThen hf (fun _ _ => rfl) s

theorem performs_ofParts (kind : Kind) (rows : Nat) (data : Bytes) (validity : Option Bytes) (s : Session) :
    Performs (ofParts kind rows data validity) s (Telling Added) :=
  (Light.act _).adds performs_addColumn s

theorem performs_cast (v : String) (target : Kind) (s : Session) :
    Performs (cast v target) s (Telling Added) := by
  refine (light_shape v).adds (fun source => (Light.act _).adds fun rule => ?_) s
  refine (light_materialize v).adds fun p => (Light.log _).adds fun _ => ?_
  by_cases hrule : rule ≠ .identity
  · simp only [if_pos hrule]
    exact (Light.act _).adds fun _ => (Light.act _).adds performs_addColumn
  · simp only [if_neg hrule]
    exact (Light.pure _).adds fun _ => (Light.act _).adds performs_addColumn

theorem light_takeAll (c : Concatenation) (vs : List String) : Light (takeAll c vs) := by
  induction vs generalizing c with
  | nil => exact .pure _
  | cons v vs ih =>
    exact (light_shape v).bind fun _ => (light_materialize v).bind fun _ => (Light.act _).bind fun _ => ih _

theorem light_shapes (vs : List String) : Light (vs.mapM shape) := by
  induction vs with
  | nil => exact .pure _
  | cons v vs ih =>
    rw [List.mapM_cons]
    exact (light_shape v).bind fun _ => ih.bind fun _ => .pure _

theorem performs_concat (vs : List String) (s : Session) : Performs (concat vs) s (Telling Added) :=
  (light_shapes vs).adds (fun _ => (Light.act _).adds fun _ => (Light.act _).adds fun _ =>
    (light_takeAll _ vs).adds fun _ => (Light.log _).adds fun _ => performs_addColumn _) s

theorem performs_operate (op : Operation) (out : Kind) (l r : String) (s : Session) :
    Performs (operate op out l r) s (Telling Added) :=
  (light_shape l).adds (fun _ => (light_shape r).adds fun _ => (Light.act _).adds fun _ =>
    (light_materialize r).adds fun _ => (light_materialize l).adds fun _ => (Light.log _).adds fun _ =>
      (Light.act _).adds performs_addColumn) s

theorem performs_operateScalar (op : Operation) (out : Kind) (l : String) (right : Scalar) (s : Session) :
    Performs (operateScalar op out l right) s (Telling Added) :=
  (light_shape l).adds (fun _ => (Light.act _).adds fun _ => (light_materialize l).adds fun _ =>
    (Light.log _).adds fun _ => (Light.act _).adds performs_addColumn) s

end Action

end Columnar
