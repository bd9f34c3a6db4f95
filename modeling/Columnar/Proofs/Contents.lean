/-
What lies in a session: the column in each storage, wherever its data is.

`Session.column?` is the content of a storage, be it on the host or on a device.
A session is `Orderly` if its storages do not share allocations and know what
they have, and `Coherent` if its runtimes also bring data as it is. In an orderly
session transfers, new storages and reclaimed ones leave the columns of all others
as they are. Each change that a session makes has its lemma here, and what they
have in common is `Session.Later`.
-/
import Columnar.Proofs.Transfers
import Columnar.Session

namespace Columnar.Session

/-- The payload of a storage, wherever it lies. -/
def payloadOf (s : Session) (st : Storage) : Payload :=
  match st.place with
  | .host p => p
  | .both p _ => p
  | .device d => Payload.ofBuffers st.shape ((s.runtime d.runtime).fetched d.allocations)

/-- The column in a storage. -/
def columnOf (s : Session) (st : Storage) : Column := st.shape.column (s.payloadOf st)

/-- The column under a number. -/
def column? (s : Session) (id : Nat) : Option Column := (s.storages.find? id).map s.columnOf

/-- A storage that is as it was holds the column that it held. -/
theorem column?_congr {s s' : Session} {id : Nat}
    (hst : s'.storages.find? id = s.storages.find? id)
    (hp : ∀ st, s.storages.find? id = some st → s'.payloadOf st = s.payloadOf st) :
    s'.column? id = s.column? id := by
  rw [column?, column?, hst]
  cases h : s.storages.find? id with
  | none => rfl
  | some st => simp only [Option.map_some, columnOf, hp st h]

theorem payloadOf_of_column? {s s' : Session} {id : Nat} {st : Storage}
    (hst : s.storages.find? id = some st) (hst' : s'.storages.find? id = some st)
    (h : s'.column? id = s.column? id) : s'.payloadOf st = s.payloadOf st := by
  rw [column?, hst', column?, hst] at h
  exact congrArg Column.payload (Option.some.inj h)

/-- A payload that is as it was wherever it lies. -/
theorem payloadOf_congr_of_fetched {s s' : Session} {st : Storage}
    (h : ∀ d, st.place.deviceCopy? = some d →
      (s'.runtime d.runtime).fetched d.allocations = (s.runtime d.runtime).fetched d.allocations) :
    s'.payloadOf st = s.payloadOf st := by
  unfold payloadOf
  split
  next => rfl
  next => rfl
  next d hplace => rw [h d (by rw [hplace]; rfl)]

/-- A session whose runtimes are numbered in order, and whose storages are
numbered by the ledger, know whether they have validity bits, and have allocations
that lie on their runtimes and that they do not share. -/
structure Orderly (s : Session) : Prop where
  dense : s.runtimes.Dense
  default : 0 < s.runtimes.size
  names : ∀ name id, s.runtimeNames.find? name = some id → id < s.runtimes.size
  bounded : ∀ id, (s.runtime id).Bounded
  ids : ∀ id st, s.storages.find? id = some st → id ≤ s.ledger.registered
  shaped : ∀ id st, s.storages.find? id = some st →
    st.shape.hasValidity = (s.payloadOf st).validity.isSome
  copies : ∀ id st d, s.storages.find? id = some st → st.place.deviceCopy? = some d →
    d.runtime < s.runtimes.size ∧ ∀ a ∈ d.allocations, (s.runtime d.runtime).Live a
  apart : ∀ i j st st' d d', i ≠ j → s.storages.find? i = some st → s.storages.find? j = some st' →
    st.place.deviceCopy? = some d → st'.place.deviceCopy? = some d' → d.runtime = d'.runtime →
    ∀ a ∈ d.allocations, ∀ b ∈ d'.allocations, a.handle ≠ b.handle

/-- An orderly session whose runtimes bring data as it is. -/
structure Coherent (s : Session) : Prop extends s.Orderly where
  faithful : ∀ id, (s.runtime id).plan.Faithful

/-- What keeps a session orderly and its plans as they are keeps it coherent. -/
theorem Coherent.of_orderly {s s' : Session} (h : s.Coherent) (h' : s'.Orderly)
    (hplan : ∀ i, (s'.runtime i).plan = (s.runtime i).plan) : s'.Coherent :=
  ⟨h', fun i => hplan i ▸ h.faithful i⟩

theorem Orderly.handle_le {s : Session} (h : s.Orderly) {id : Nat} {st : Storage} {d : DeviceCopy}
    (hst : s.storages.find? id = some st) (hd : st.place.deviceCopy? = some d) {a : Allocation}
    (ha : a ∈ d.allocations) : a.handle ≤ (s.runtime d.runtime).device.uploads := by
  obtain ⟨bytes, hbytes, -⟩ := (h.copies id st d hst hd).2 a ha
  exact h.bounded _ _ _ hbytes

theorem column?_eq_some {s : Session} {id : Nat} {c : Column} :
    s.column? id = some c ↔ ∃ st, s.storages.find? id = some st ∧ s.columnOf st = c := by
  simp [column?]

theorem Orderly.shape_columnOf {s : Session} (h : s.Orderly) {id : Nat} {st : Storage}
    (hst : s.storages.find? id = some st) : (s.columnOf st).shape = st.shape := by
  have := h.shaped id st hst
  simp only [columnOf, Shape.column, Column.shape, ← this]

/-- That a session has come from another without a loss: names and builders are
the same, and the columns are all still there. -/
structure Later (s s' : Session) : Prop where
  vectors : s'.vectors = s.vectors
  builders : s'.builders = s.builders
  runtimeNames : s'.runtimeNames = s.runtimeNames
  columns : ∀ id c, s.column? id = some c → s'.column? id = some c

theorem Later.refl (s : Session) : s.Later s := ⟨rfl, rfl, rfl, fun _ _ h => h⟩

theorem Later.trans {s s' s'' : Session} (h : s.Later s') (h' : s'.Later s'') : s.Later s'' where
  vectors := h'.vectors.trans h.vectors
  builders := h'.builders.trans h.builders
  runtimeNames := h'.runtimeNames.trans h.runtimeNames
  columns id c hc := h'.columns id c (h.columns id c hc)

/-! ## What storages do not depend on -/

/-- That two sessions have the same storages and runtimes. -/
structure Alike (s s' : Session) : Prop where
  storages : s'.storages = s.storages
  runtimes : s'.runtimes = s.runtimes
  runtimeNames : s'.runtimeNames = s.runtimeNames
  registered : s.ledger.registered ≤ s'.ledger.registered

theorem payloadOf_congr {s s' : Session} (h : s'.runtimes = s.runtimes) (st : Storage) :
    s'.payloadOf st = s.payloadOf st := by
  simp only [payloadOf, runtime, h]

theorem Alike.column? {s s' : Session} (h : s.Alike s') (id : Nat) : s'.column? id = s.column? id :=
  column?_congr (by rw [h.storages]) fun st _ => payloadOf_congr h.runtimes st

theorem Orderly.alike {s s' : Session} (hs : s.Orderly) (h : s.Alike s') : s'.Orderly where
  dense := h.runtimes ▸ hs.dense
  default := h.runtimes ▸ hs.default
  names name id hid := by
    rw [h.runtimes]
    exact hs.names name id (h.runtimeNames ▸ hid)
  bounded id := by
    rw [runtime, h.runtimes]
    exact hs.bounded id
  ids id st hst := Nat.le_trans (hs.ids id st (h.storages ▸ hst)) h.registered
  shaped id st hst := by
    rw [payloadOf_congr h.runtimes]
    exact hs.shaped id st (h.storages ▸ hst)
  copies id st d hst hd := by
    rw [runtime, h.runtimes]
    exact hs.copies id st d (h.storages ▸ hst) hd
  apart i j st st' d d' hij hst hst' := hs.apart i j st st' d d' hij (h.storages ▸ hst) (h.storages ▸ hst')

theorem Coherent.alike {s s' : Session} (hs : s.Coherent) (h : s.Alike s') : s'.Coherent :=
  hs.of_orderly (hs.toOrderly.alike h) fun i => by rw [runtime, h.runtimes, runtime]

/-! ## Reclaiming -/

theorem alike_reclaim (s : Session) (holder : Holder) (released : Bool) :
    s.Alike (s.reclaim holder released) := by
  have hledger : (s.ledger.reclaim released).registered = s.ledger.registered := by
    unfold Ledger.reclaim
    split <;> rfl
  unfold reclaim
  split
  · exact ⟨rfl, rfl, rfl, Nat.le_of_eq hledger.symm⟩
  · simp only
    split <;> exact ⟨rfl, rfl, rfl, Nat.le_of_eq hledger.symm⟩

theorem config_reclaim (s : Session) (holder : Holder) (released : Bool) :
    (s.reclaim holder released).config = if released then s.config else some s.settledConfig := by
  unfold reclaim
  cases released with
  | true => rfl
  | false =>
    simp only [Bool.false_eq_true, if_false]
    split <;> rfl

theorem ledger_reclaim (s : Session) (holder : Holder) (released : Bool) :
    (s.reclaim holder released).ledger = s.ledger.reclaim released := by
  unfold reclaim
  split
  · rfl
  · simp only
    split <;> rfl

theorem vectors_reclaim (s : Session) (holder : Holder) (released : Bool) :
    (s.reclaim holder released).vectors = s.vectors := by
  unfold reclaim
  split
  · rfl
  · simp only
    split <;> rfl

theorem builders_reclaim (s : Session) (holder : Holder) (released : Bool) :
    (s.reclaim holder released).builders = s.builders := by
  unfold reclaim
  split
  · rfl
  · simp only
    split <;> rfl

/-! ## Runtimes -/

theorem runtime_setRuntime (s : Session) (i j : Nat) (r : Runtime) :
    (s.setRuntime i r).runtime j = if j = i then r else s.runtime j := by
  simp only [runtime, setRuntime, Table.find?_insert]
  by_cases h : j = i <;> simp [h]

/-- That a change of a runtime spares what storages have on it. -/
structure Spares (s : Session) (i : Nat) (r : Runtime) : Prop where
  bounded : r.Bounded
  kept : ∀ id st d, s.storages.find? id = some st → st.place.deviceCopy? = some d → d.runtime = i →
    ∀ a ∈ d.allocations, r.find? a.handle = (s.runtime i).find? a.handle

theorem Orderly.spares {s : Session} (h : s.Orderly) {i : Nat} {r : Runtime}
    (hr : (s.runtime i).Keeps r) : s.Spares i r where
  bounded := hr.bounded (h.bounded i)
  kept id st d hst hd hsame a ha := by
    subst hsame
    exact hr.kept a.handle (h.handle_le hst hd ha)

/-- **A transfer**, or anything that spares what storages have, leaves every column
as it is. -/
theorem Orderly.setRuntime {s : Session} (h : s.Orderly) {i : Nat} {r : Runtime}
    (hi : i < s.runtimes.size) (hr : s.Spares i r) :
    (s.setRuntime i r).Orderly ∧ ∀ id, (s.setRuntime i r).column? id = s.column? id := by
  obtain ⟨hdense, hsize⟩ := h.dense.insert hi r
  have hpayload : ∀ id st, s.storages.find? id = some st →
      (s.setRuntime i r).payloadOf st = s.payloadOf st := by
    intro id st hst
    refine payloadOf_congr_of_fetched fun d hd => ?_
    rw [runtime_setRuntime]
    split
    next heq => rw [heq, Runtime.fetched_congr (hr.kept id st d hst hd heq)]
    next => rfl
  refine ⟨?_, fun id => column?_congr rfl (hpayload id)⟩
  exact {
    dense := hdense
    default := hsize ▸ h.default
    names := fun name id hid => hsize ▸ h.names name id hid
    bounded := fun j => by
      rw [runtime_setRuntime]
      split
      · exact hr.bounded
      · exact h.bounded j
    ids := h.ids
    shaped := fun id st hst => by
      rw [hpayload id st hst]
      exact h.shaped id st hst
    copies := fun id st d hst hd => by
      obtain ⟨hlt, hlive⟩ := h.copies id st d hst hd
      refine ⟨hsize ▸ hlt, fun a ha => ?_⟩
      rw [runtime_setRuntime]
      split
      next heq => exact (heq ▸ hlive a ha).congr (hr.kept id st d hst hd heq a ha)
      next => exact hlive a ha
    apart := h.apart }

theorem Coherent.setRuntime {s : Session} (h : s.Coherent) {i : Nat} {r : Runtime}
    (hi : i < s.runtimes.size) (hr : (s.runtime i).Keeps r) :
    (s.setRuntime i r).Coherent ∧ ∀ id, (s.setRuntime i r).column? id = s.column? id := by
  obtain ⟨horderly, hcolumns⟩ := h.toOrderly.setRuntime hi (h.spares hr)
  refine ⟨h.of_orderly horderly fun j => ?_, hcolumns⟩
  rw [runtime_setRuntime]
  split
  next heq => rw [heq, hr.plan]
  next => rfl

theorem runtime_newRuntime (s : Session) (name : String) (plan : FaultPlan) (j : Nat) :
    ({ s.setRuntime s.runtimes.size { plan := plan } with
      runtimeNames := s.runtimeNames.insert name s.runtimes.size } : Session).runtime j =
      if j = s.runtimes.size then { plan := plan } else s.runtime j :=
  runtime_setRuntime s _ j _

/-- **A new runtime** is no storage's. -/
theorem Orderly.newRuntime {s : Session} (h : s.Orderly) (name : String) (plan : FaultPlan)
    {s' : Session} (hs' : s' = { s.setRuntime s.runtimes.size { plan := plan } with
      runtimeNames := s.runtimeNames.insert name s.runtimes.size }) :
    s'.Orderly ∧ ∀ id, s'.column? id = s.column? id := by
  obtain ⟨hdense, hsize⟩ := h.dense.insert_size ({ plan := plan } : Runtime)
  have hruntime (j : Nat) : s'.runtime j =
      if j = s.runtimes.size then { plan := plan } else s.runtime j := by
    rw [hs', runtime_newRuntime]
  have hkept : ∀ id st d, s.storages.find? id = some st → st.place.deviceCopy? = some d →
      s'.runtime d.runtime = s.runtime d.runtime := by
    intro id st d hst hd
    rw [hruntime, if_neg (Nat.ne_of_lt (h.copies id st d hst hd).1)]
  have hpayload : ∀ id st, s.storages.find? id = some st → s'.payloadOf st = s.payloadOf st :=
    fun id st hst => payloadOf_congr_of_fetched fun d hd => by rw [hkept id st d hst hd]
  have hstorages : s'.storages = s.storages := hs' ▸ rfl
  refine ⟨?_, fun id => column?_congr (by rw [hstorages]) (hpayload id)⟩
  have hruntimes : s'.runtimes = s.runtimes.insert s.runtimes.size { plan := plan } := hs' ▸ rfl
  have hnames : s'.runtimeNames = s.runtimeNames.insert name s.runtimes.size := hs' ▸ rfl
  rw [← hruntimes] at hdense hsize
  exact {
    dense := hdense
    default := by omega
    names := fun n id hid => by
      rcases Table.of_find?_insert (hnames ▸ hid) with ⟨-, rfl⟩ | hid
      · omega
      · have := h.names n id hid
        omega
    bounded := fun j => by
      rw [hruntime]
      split
      · exact fun _ _ hfind => by cases hfind
      · exact h.bounded j
    ids := fun id st hst => by
      have := h.ids id st (hstorages ▸ hst)
      rwa [show s'.ledger = s.ledger from hs' ▸ rfl]
    shaped := fun id st hst => by
      rw [hpayload id st (hstorages ▸ hst)]
      exact h.shaped id st (hstorages ▸ hst)
    copies := fun id st d hst hd => by
      obtain ⟨hlt, hlive⟩ := h.copies id st d (hstorages ▸ hst) hd
      rw [hkept id st d (hstorages ▸ hst) hd]
      exact ⟨by omega, hlive⟩
    apart := fun i j st st' d d' hij hst hst' =>
      h.apart i j st st' d d' hij (hstorages ▸ hst) (hstorages ▸ hst') }

theorem Coherent.newRuntime {s : Session} (h : s.Coherent) (name : String) {plan : FaultPlan}
    (hplan : plan.Faithful) {s' : Session}
    (hs' : s' = { s.setRuntime s.runtimes.size { plan := plan } with
      runtimeNames := s.runtimeNames.insert name s.runtimes.size }) :
    s'.Coherent ∧ ∀ id, s'.column? id = s.column? id := by
  obtain ⟨horderly, hcolumns⟩ := h.toOrderly.newRuntime name plan hs'
  refine ⟨⟨horderly, fun j => ?_⟩, hcolumns⟩
  rw [hs', runtime_newRuntime]
  split
  · exact hplan
  · exact h.faithful j

/-! ## Storages -/

theorem find?_setStorage (s : Session) (id : Nat) (st : Storage) (j : Nat) :
    (s.setStorage id st).storages.find? j = if j = id then some st else s.storages.find? j :=
  Table.find?_insert _ _ _ _

/-- **A storage that changes**, but not what it has on a device, leaves the columns
of all others as they are. -/
theorem Orderly.setStorage {s : Session} (h : s.Orderly) {id : Nat} {st : Storage} (st' : Storage)
    (hst : s.storages.find? id = some st) (hcopy : st'.place.deviceCopy? = st.place.deviceCopy?)
    (hbits : st'.shape.hasValidity = (s.payloadOf st').validity.isSome) :
    (s.setStorage id st').Orderly ∧
      ∀ j, (s.setStorage id st').column? j = if j = id then some (s.columnOf st') else s.column? j := by
  -- What a storage has on a device is what it had there.
  have hback : ∀ j u, (s.setStorage id st').storages.find? j = some u →
      ∃ t, s.storages.find? j = some t ∧ u.place.deviceCopy? = t.place.deviceCopy? := by
    intro j u hu
    rcases Table.of_find?_insert hu with ⟨rfl, rfl⟩ | hu
    · exact ⟨st, hst, hcopy⟩
    · exact ⟨u, hu, rfl⟩
  refine ⟨?_, fun j => ?_⟩
  · exact {
      dense := h.dense
      default := h.default
      names := h.names
      bounded := h.bounded
      ids := fun j u hu => by
        obtain ⟨t, ht, -⟩ := hback j u hu
        exact h.ids j t ht
      shaped := fun j u hu => by
        rcases Table.of_find?_insert hu with ⟨-, rfl⟩ | hu
        · exact hbits
        · exact h.shaped j u hu
      copies := fun j u d hu hd => by
        obtain ⟨t, ht, hco⟩ := hback j u hu
        exact h.copies j t d ht (hco ▸ hd)
      apart := fun i j u u' d d' hij hu hu' hd hd' => by
        obtain ⟨t, ht, hco⟩ := hback i u hu
        obtain ⟨t', ht', hco'⟩ := hback j u' hu'
        exact h.apart i j t t' d d' hij ht ht' (hco ▸ hd) (hco' ▸ hd') }
  · split
    next heq => rw [column?, find?_setStorage, if_pos heq]; rfl
    next hne => exact column?_congr (by rw [find?_setStorage, if_neg hne]) fun _ _ => rfl

/-- **A storage that changes its place or its handles**, not its content. -/
theorem Coherent.setStorage {s : Session} (h : s.Coherent) {id : Nat} {st : Storage} (st' : Storage)
    (hst : s.storages.find? id = some st) (hshape : st'.shape = st.shape)
    (hcopy : st'.place.deviceCopy? = st.place.deviceCopy?) (hp : s.payloadOf st' = s.payloadOf st) :
    (s.setStorage id st').Coherent ∧ ∀ j, (s.setStorage id st').column? j = s.column? j := by
  obtain ⟨horderly, hcolumns⟩ := h.toOrderly.setStorage st' hst hcopy (by
    rw [hshape, hp]
    exact h.shaped id st hst)
  refine ⟨h.of_orderly horderly fun _ => rfl, fun j => ?_⟩
  rw [hcolumns]
  split
  next heq => rw [heq, column?, hst, columnOf, hshape, hp]; rfl
  next => rfl

theorem find?_addStorage (s : Session) (shape : Shape) (place : Place) (j : Nat) :
    (s.addStorage shape place).2.storages.find? j =
      if j = s.ledger.registered + 1 then some ⟨shape, place, 1⟩ else s.storages.find? j :=
  Table.find?_insert _ _ _ _

/-- That what a place has on a device lies there, and is no storage's. -/
structure Unshared (s : Session) (place : Place) : Prop where
  copies : ∀ d, place.deviceCopy? = some d →
    d.runtime < s.runtimes.size ∧ ∀ a ∈ d.allocations, (s.runtime d.runtime).Live a
  apart : ∀ d j st d', place.deviceCopy? = some d → s.storages.find? j = some st →
    st.place.deviceCopy? = some d' → d.runtime = d'.runtime →
    ∀ a ∈ d.allocations, ∀ b ∈ d'.allocations, a.handle ≠ b.handle

theorem Unshared.log {s : Session} {place : Place} (h : s.Unshared place) (e : Event) :
    (s.log e).Unshared place :=
  ⟨h.copies, h.apart⟩

theorem unshared_host (s : Session) (p : Payload) : s.Unshared (.host p) where
  copies _ hd := by cases hd
  apart _ _ _ _ hd := by cases hd

/-- What has been uploaded lies under handles that no storage has. -/
theorem Orderly.unshared_of_uploadAll {s : Session} (h : s.Orderly) {i : Nat}
    (hi : i < s.runtimes.size) {buffers : List Bytes} {allocations : List Allocation} {r : Runtime}
    (hup : (s.runtime i).uploadAll buffers = (.ok allocations, r)) :
    (s.setRuntime i r).Unshared (.device ⟨i, allocations⟩) := by
  obtain ⟨-, hfresh, -⟩ := Runtime.of_uploadAll hup
  constructor
  · intro d hd
    cases hd
    refine ⟨(h.dense.insert hi r).2 ▸ hi, fun a ha => ?_⟩
    rw [runtime_setRuntime, if_pos rfl]
    exact (hfresh a ha).2.2
  · intro d j st d' hd hst hd' hsame a ha b hb
    cases hd
    have hold := h.handle_le hst hd' hb
    rw [← hsame] at hold
    exact Nat.ne_of_gt (Nat.lt_of_le_of_lt hold (hfresh a ha).1)

/-- What has been uploaded of a column is its payload. -/
theorem payloadOf_of_uploadAll {s : Session} {c : Column} (hc : c.payload.elements.Suits c.kind) {i : Nat}
    {allocations : List Allocation} {r : Runtime}
    (hup : (s.runtime i).uploadAll c.payload.buffers = (.ok allocations, r)) :
    (s.setRuntime i r).payloadOf ⟨c.shape, .device ⟨i, allocations⟩, 1⟩ = c.payload := by
  obtain ⟨-, -, hfetched⟩ := Runtime.of_uploadAll hup
  simp only [payloadOf, runtime_setRuntime, if_pos, hfetched]
  exact Payload.ofBuffers_buffers hc

/-- **A new storage** holds its column, and all others hold theirs. -/
theorem Orderly.addStorage {s : Session} (h : s.Orderly) {shape : Shape} {place : Place}
    (hbits : shape.hasValidity = (s.payloadOf ⟨shape, place, 1⟩).validity.isSome)
    (hplace : s.Unshared place) :
    (s.addStorage shape place).2.Orderly ∧
      ∀ j, (s.addStorage shape place).2.column? j =
        if j = (s.addStorage shape place).1 then some (s.columnOf ⟨shape, place, 1⟩)
        else s.column? j := by
  have hid : (s.addStorage shape place).1 = s.ledger.registered + 1 := rfl
  have hfind := find?_addStorage s shape place
  refine ⟨?_, fun j => ?_⟩
  · exact {
      dense := h.dense
      default := h.default
      names := h.names
      bounded := h.bounded
      ids := fun j u hu => by
        rcases Table.of_find?_insert hu with ⟨rfl, -⟩ | hu
        · exact Nat.le_refl _
        · exact Nat.le_succ_of_le (h.ids j u hu)
      shaped := fun j u hu => by
        rcases Table.of_find?_insert hu with ⟨-, rfl⟩ | hu
        · exact hbits
        · exact h.shaped j u hu
      copies := fun j u d hu hd => by
        rcases Table.of_find?_insert hu with ⟨-, rfl⟩ | hu
        · exact hplace.copies d hd
        · exact h.copies j u d hu hd
      apart := fun i j u u' d d' hij hu hu' hd hd' hsame a ha b hb => by
        rcases Table.of_find?_insert hu with ⟨rfl, rfl⟩ | hu <;> rcases Table.of_find?_insert hu' with ⟨rfl, rfl⟩ | hu'
        · exact absurd rfl hij
        · exact hplace.apart d j u' d' hd hu' hd' hsame a ha b hb
        · exact (hplace.apart d' i u d hd' hu hd hsame.symm b hb a ha).symm
        · exact h.apart i j u u' d d' hij hu hu' hd hd' hsame a ha b hb }
  · rw [hid]
    split
    next heq => rw [column?, hfind, if_pos heq]; rfl
    next hne => exact column?_congr (by rw [hfind, if_neg hne]) fun _ _ => rfl

/-! ## Storage that goes away -/

theorem Orderly.erase {s : Session} (h : s.Orderly) (id : Nat) :
    { s with storages := s.storages.erase id }.Orderly := by
  have hback : ∀ j u, (s.storages.erase id).find? j = some u → s.storages.find? j = some u :=
    fun j u hu => (Table.find?_erase_eq_some.mp hu).2
  exact {
    dense := h.dense
    default := h.default
    names := h.names
    bounded := h.bounded
    ids := fun j u hu => h.ids j u (hback j u hu)
    shaped := fun j u hu => h.shaped j u (hback j u hu)
    copies := fun j u d hu => h.copies j u d (hback j u hu)
    apart := fun i j u u' d d' hij hu hu' =>
      h.apart i j u u' d d' hij (hback i u hu) (hback j u' hu') }

/-- A storage that has gone leaves what it had on a device to no one. -/
theorem Orderly.unshared_of_erase {s : Session} (h : s.Orderly) {id : Nat} {st : Storage}
    (hst : s.storages.find? id = some st) :
    ({ s with storages := s.storages.erase id } : Session).Unshared st.place where
  copies d hd := h.copies id st d hst hd
  apart d j u d' hd hu hd' := by
    obtain ⟨hne, hu⟩ := Table.find?_erase_eq_some.mp hu
    exact h.apart id j st u d d' (Ne.symm hne) hst hu hd hd'

theorem Orderly.spares_freeAll {s : Session} (h : s.Orderly) {place : Place} (hplace : s.Unshared place)
    {d : DeviceCopy} (hd : place.deviceCopy? = some d) :
    s.Spares d.runtime ((s.runtime d.runtime).freeAll d.allocations) := by
  obtain ⟨-, -, hbounded, hfind⟩ := Runtime.of_freeAll (s.runtime d.runtime) d.allocations
  refine ⟨hbounded (h.bounded _), fun id st d' hst hd' hsame b hb => ?_⟩
  exact hfind b.handle fun a ha => hplace.apart d id st d' hd hst hd' hsame.symm a ha b hb

/-- **Giving back** what no storage has leaves every column as it is. -/
theorem Orderly.freePlace {s : Session} (h : s.Orderly) {place : Place} (hplace : s.Unshared place) :
    (s.freePlace place).Orderly ∧ ∀ j, (s.freePlace place).column? j = s.column? j := by
  unfold Session.freePlace
  cases hd : place.deviceCopy? with
  | none => exact ⟨h, fun _ => rfl⟩
  | some d => exact h.setRuntime (hplace.copies d hd).1 (h.spares_freeAll hplace hd)

theorem plan_freePlace (s : Session) (place : Place) (i : Nat) :
    ((s.freePlace place).runtime i).plan = (s.runtime i).plan := by
  unfold Session.freePlace
  split
  next => rfl
  next d _ =>
    rw [runtime_setRuntime]
    split
    next heq => rw [heq, (Runtime.of_freeAll _ _).1]
    next => rfl

/-- **One handle less** leaves all columns as they are, but for one that may go. -/
theorem Orderly.releaseHandle {s : Session} (h : s.Orderly) (id : Nat) (released : Bool) :
    (s.releaseHandle id released).Orderly ∧
      (∀ j, j ≠ id → (s.releaseHandle id released).column? j = s.column? j) ∧
      ∀ c, (s.releaseHandle id released).column? id = some c → s.column? id = some c := by
  unfold Session.releaseHandle
  cases hst : s.storages.find? id with
  | none => exact ⟨h, fun _ _ => rfl, fun _ hc => hc⟩
  | some st =>
    simp only
    split
    next =>
      obtain ⟨hfreed, hcolumns⟩ := (h.erase id).freePlace (h.unshared_of_erase hst)
      have hkept (j : Nat) : (((({ s with storages := s.storages.erase id } : Session).freePlace
          st.place).reclaim .vector released).column? j) =
          ({ s with storages := s.storages.erase id } : Session).column? j := by
        rw [(alike_reclaim _ _ _).column?, hcolumns]
      refine ⟨hfreed.alike (alike_reclaim _ _ _), fun j hj => ?_, fun c hc => ?_⟩
      · rw [hkept]
        exact column?_congr (Table.find?_erase_of_ne _ hj) fun _ _ => rfl
      · rw [hkept, column?, Table.find?_erase_self] at hc
        cases hc
    next =>
      obtain ⟨hset, hcolumns⟩ := h.setStorage { st with handles := st.handles - 1 } hst rfl
        (h.shaped id st hst)
      refine ⟨hset, fun j hj => by rw [hcolumns, if_neg hj], fun c hc => ?_⟩
      rw [hcolumns, if_pos rfl] at hc
      rw [column?, hst]
      exact hc

theorem plan_releaseHandle (s : Session) (id : Nat) (released : Bool) (i : Nat) :
    ((s.releaseHandle id released).runtime i).plan = (s.runtime i).plan := by
  unfold Session.releaseHandle
  split
  · rfl
  · simp only
    split
    · rw [runtime, (alike_reclaim _ _ _).runtimes]
      exact plan_freePlace _ _ i
    · rfl

theorem Coherent.releaseHandle {s : Session} (h : s.Coherent) (id : Nat) (released : Bool) :
    (s.releaseHandle id released).Coherent ∧
      ∀ j c, (s.releaseHandle id released).column? j = some c → s.column? j = some c := by
  obtain ⟨horderly, hothers, hsame⟩ := h.toOrderly.releaseHandle id released
  refine ⟨h.of_orderly horderly (plan_releaseHandle s id released), fun j c hc => ?_⟩
  by_cases hj : j = id
  · exact hj ▸ hsame c (hj ▸ hc)
  · rwa [hothers j hj] at hc

theorem builders_releaseHandle (s : Session) (id : Nat) (released : Bool) :
    (s.releaseHandle id released).builders = s.builders := by
  unfold Session.releaseHandle
  split
  · rfl
  · simp only
    split
    · rw [builders_reclaim]
      unfold Session.freePlace
      split <;> rfl
    · rfl

end Columnar.Session
