/-
What lies on a runtime is what storages have there.

Each piece that lies on the device of a runtime is one buffer of one storage, and each
storage that has been sent to a runtime has its buffers there (`Session.Stocked`). Every
deed keeps that, whatever fails: uploads that fail give back what they have sent, and the
last handle of a storage gives back what the storage had (`Does.stocked`).
-/
import Columnar.Proofs.Accounts
import Columnar.Proofs.Forms
import Columnar.Proofs.Retrying

namespace Columnar

/-! ## Devices -/

/-- What lies on a device, as its owners know it. -/
def Device.held (d : Device) : List Allocation := d.allocations.entries.map fun e => ⟨e.1, e.2.length⟩

theorem Device.bytesInUse_eq (d : Device) : d.bytesInUse = total (d.held.map (·.length)) := by
  simp only [bytesInUse, held, Table.values, List.map_map]
  rfl

namespace Runtime

variable {r r' : Runtime} {a : Allocation} {as rest : List Allocation}

/-- That nothing lies on a device twice, or under a handle that has not been given out. -/
structure Ordered (r : Runtime) : Prop where
  keyed : r.device.allocations.Keyed
  bounded : r.Bounded

theorem Ordered.of_device (h : r.Ordered) (hallocations : r'.device.allocations = r.device.allocations)
    (huploads : r.device.uploads ≤ r'.device.uploads) : r'.Ordered where
  keyed := hallocations ▸ h.keyed
  bounded i bytes hfind := by
    rw [find?, hallocations] at hfind
    exact Nat.le_trans (h.bounded i bytes hfind) huploads

theorem ordered_upload (h : r.Ordered) {bytes : Bytes} (hup : r.upload bytes = (.ok a, r')) :
    r'.Ordered ∧ r'.device.held.Perm (a :: r.device.held) ∧ a.length = bytes.length := by
  have hbounded := (of_upload hup).1.bounded h.bounded
  unfold upload at hup
  simp only at hup
  split at hup
  · cases hup
  · obtain ⟨ha, rfl⟩ := Prod.mk.inj hup
    cases ha
    have hnone : r.device.allocations.find? (r.device.uploads + 1) = none :=
      Table.find?_succ_of_le h.bounded
    refine ⟨⟨h.keyed.insert _ _, hbounded⟩, ?_, rfl⟩
    simp only [Device.held, Device.upload, Table.insert_of_none hnone, List.map_append]
    exact List.perm_append_singleton _ _

/-- **What has been sent** lies beside what lay there, a piece for each buffer. -/
theorem ordered_uploadAll (h : r.Ordered) {buffers : List Bytes} (hup : r.uploadAll buffers = (.ok as, r')) :
    r'.Ordered ∧ r'.device.held.Perm (as ++ r.device.held) ∧
      as.map (·.length) = buffers.map List.length := by
  induction buffers generalizing r r' as with
  | nil =>
    cases hup
    exact ⟨h, .refl _, rfl⟩
  | cons bytes buffers ih =>
    rw [uploadAll] at hup
    split at hup
    next => cases hup
    next a r₁ hfirst =>
      obtain ⟨h₁, hheld₁, hlen⟩ := ordered_upload h hfirst
      split at hup
      next => cases hup
      next as r₂ hrest =>
        obtain ⟨has, rfl⟩ := Prod.mk.inj hup
        cases has
        obtain ⟨h₂, hheld₂, hlens⟩ := ih h₁ hrest
        refine ⟨h₂, ?_, by rw [List.map_cons, List.map_cons, hlen, hlens]⟩
        exact (hheld₂.trans (hheld₁.append_left as)).trans List.perm_middle

theorem ordered_free (h : r.Ordered) (hheld : r.device.held.Perm (a :: rest)) :
    (r.free a).Ordered ∧ (r.free a).device.held.Perm rest := by
  refine ⟨⟨h.keyed.erase _, fun i bytes hi => h.bounded i bytes (Table.find?_erase_eq_some.mp hi).2⟩, ?_⟩
  obtain ⟨⟨handle, bytes⟩, he, rfl⟩ := List.mem_map.mp (hheld.mem_iff.mpr List.mem_cons_self)
  have hsplit := (h.keyed.perm_cons_erase (h.keyed.find?_of_mem he)).map
    fun e : Nat × Bytes => (⟨e.1, e.2.length⟩ : Allocation)
  exact (hsplit.symm.trans hheld).cons_inv

/-- **What is given back** is gone, and all else still lies there. -/
theorem ordered_freeAll (h : r.Ordered) (hheld : r.device.held.Perm (as ++ rest)) :
    (r.freeAll as).Ordered ∧ (r.freeAll as).device.held.Perm rest := by
  induction as generalizing r with
  | nil => exact ⟨h, hheld⟩
  | cons a as ih =>
    obtain ⟨h', hheld'⟩ := ordered_free h hheld
    exact ih h' hheld'

/-! ### Sizes -/

theorem length_tamper (plan : FaultPlan) (attempt : Nat) (bytes : Bytes) :
    (FaultPlan.tamper plan attempt bytes).length = bytes.length := by
  unfold FaultPlan.tamper
  induction plan.tampers generalizing bytes with
  | nil => rfl
  | cons t ts ih =>
    rw [List.foldl_cons, ih]
    split
    · exact List.length_modify _ _ _
    · rfl

theorem length_of_download {bytes : Bytes} (h : r.download a = (.ok bytes, r')) :
    bytes.length = a.length := by
  unfold download at h
  simp only at h
  split at h
  · cases h
  · split at h
    next => cases h
    next found device hdown =>
      obtain ⟨hbytes, -⟩ := Prod.mk.inj h
      cases hbytes
      rw [length_tamper]
      rw [Device.download_eq] at hdown
      split at hdown
      next => cases hdown
      next =>
        split at hdown
        next hlen =>
          cases hdown
          exact hlen
        next => cases hdown

/-- What is brought has the sizes of what is asked for. -/
theorem lengths_of_downloadAll {buffers : List Bytes} (h : r.downloadAll as = (.ok buffers, r')) :
    buffers.map List.length = as.map (·.length) := by
  induction downloadAll_eq_ok.mp h with
  | nil r => rfl
  | cons hdown hrest ih => rw [List.map_cons, List.map_cons, length_of_download hdown, ih hrest.downloadAll]

/-! ### Failures -/

theorem error_of_download {e : DeviceError} (ha : r.Live a) (h : r.download a = (.error e, r')) :
    ∃ n ∈ r.plan.failingDownloads, e = .scheduledDownload n := by
  unfold download at h
  simp only at h
  split at h
  next hfails =>
    obtain ⟨he, -⟩ := Prod.mk.inj h
    cases he
    exact ⟨_, hfails, rfl⟩
  next =>
    obtain ⟨bytes, hbytes, hlen⟩ := ha
    rw [find?] at hbytes
    simp only [Device.download_eq, hbytes, if_pos hlen] at h
    cases h

/-- What lies on a device is brought, but for downloads that the plan lets fail. -/
theorem error_of_downloadAll {e : DeviceError} (has : ∀ a ∈ as, r.Live a)
    (h : r.downloadAll as = (.error e, r')) : ∃ n ∈ r.plan.failingDownloads, e = .scheduledDownload n := by
  induction downloadAll_eq_error.mp h with
  | here as hdown => exact error_of_download (has _ List.mem_cons_self) hdown
  | later hdown hrest ih =>
    obtain ⟨hplan, -, hallocations, -⟩ := of_download hdown
    exact hplan ▸ ih (fun b hb => (has b (List.mem_cons_of_mem _ hb)).congr (by rw [find?, hallocations, find?]))
      hrest.downloadAll

end Runtime

namespace Payload

/-- The sizes of the buffers that a payload travels as. -/
def sizes (p : Payload) : List Nat := p.buffers.map List.length

/-- **The sizes**: of the elements or the text, of the offsets of strings, and of the
validity bits if there are any. -/
theorem sizes_eq (p : Payload) : p.sizes = p.elements.data.length ::
    (p.elements.offsets?.map fun offsets => 4 * offsets.length).toList ++
      (p.validity.map (·.bytes.length)).toList := by
  obtain ⟨elements, validity⟩ := p
  cases elements <;> cases validity <;>
    simp [sizes, buffers, Elements.offsets?, Elements.data, length_encodeOffsets]

end Payload

/-- That buffers of such sizes are those of a payload of a shape. -/
def Shape.Takes (shape : Shape) (sizes : List Nat) : Prop :=
  ∃ p : Payload, p.elements.Suits shape.kind ∧ p.validity.isSome = shape.hasValidity ∧ p.sizes = sizes

/-- **What is read of buffers** has their sizes. -/
theorem Shape.Takes.sizes_ofBuffers {shape : Shape} {buffers : List Bytes}
    (h : shape.Takes (buffers.map List.length)) :
    (Payload.ofBuffers shape buffers).sizes = buffers.map List.length := by
  obtain ⟨⟨elements, validity⟩, hsuits, hbits, hsizes⟩ := h
  rw [Payload.sizes_eq] at hsizes ⊢
  have hoffsets {bytes : Bytes} {n : Nat} (hn : 4 * n = bytes.length) :
      4 * (Payload.decodeOffsets bytes).length = bytes.length := by
    rw [Payload.decodeOffsets, List.length_map, Elements.length_pieces, ← hn, Nat.mul_div_cancel_left _ (by decide)]
  -- The buffers are those of the elements and of the validity bits, as far as there are any.
  cases elements with
  | fixed data =>
    have hkind : shape.kind ≠ .string := hsuits
    cases validity with
    | none =>
      have hnone : shape.hasValidity = false := hbits.symm
      obtain ⟨bytes, rfl, -⟩ := List.map_eq_singleton_iff.mp hsizes.symm
      simp [Payload.ofBuffers, hkind, hnone, Elements.data, Elements.offsets?]
    | some bits =>
      have hsome : shape.hasValidity = true := hbits.symm
      obtain ⟨bytes, rest, rfl, -, hrest⟩ := List.map_eq_cons_iff.mp hsizes.symm
      obtain ⟨marks, rfl, -⟩ := List.map_eq_singleton_iff.mp hrest
      simp [Payload.ofBuffers, hkind, hsome, Elements.data, Elements.offsets?]
  | strings offsets text =>
    have hkind : shape.kind = .string := hsuits
    obtain ⟨bytes, rest, rfl, -, hrest⟩ := List.map_eq_cons_iff.mp hsizes.symm
    cases validity with
    | none =>
      have hnone : shape.hasValidity = false := hbits.symm
      obtain ⟨cuts, rfl, hcuts⟩ := List.map_eq_singleton_iff.mp hrest
      simp [Payload.ofBuffers, hkind, hnone, Elements.data, Elements.offsets?, hoffsets hcuts.symm]
    | some bits =>
      have hsome : shape.hasValidity = true := hbits.symm
      obtain ⟨cuts, rest', rfl, hcuts, hrest'⟩ := List.map_eq_cons_iff.mp hrest
      obtain ⟨marks, rfl, -⟩ := List.map_eq_singleton_iff.mp hrest'
      simp [Payload.ofBuffers, hkind, hsome, Elements.data, Elements.offsets?, hoffsets hcuts.symm]

/-- The sizes that a column's rows ask for. -/
def Column.askedSizes (c : Column) : List Nat :=
  (match c.kind.primitive? with
    | some f => [c.rows * f.width]
    | none => [c.payload.elements.data.length, 4 * (c.rows + 1)]) ++
    (c.payload.validity.map (·.bytes.length)).toList

/-- **The sizes are those that the rows ask for**: there is an element or an offset for each row. -/
theorem Column.Holds.sizes_eq_asked {c : Column} {rows : List Row} (h : c.Holds rows) :
    c.payload.sizes = c.askedSizes := by
  rw [Payload.sizes_eq, askedSizes]
  cases hk : c.kind.primitive? with
  | some f =>
    obtain ⟨bytes, he, hlen⟩ := h.formed.fixed f hk
    simp [he, Elements.data, Elements.offsets?, hlen]
  | none =>
    obtain ⟨offsets, text, he, hlen, -⟩ := h.formed.strings (Kind.primitive?_eq_none.mp hk)
    simp [he, Elements.data, Elements.offsets?, hlen]

/-! ## Storages -/

namespace Storage

/-- What a storage has on a runtime. -/
def allocationsOn (i : Nat) (st : Storage) : List Allocation :=
  match st.place.deviceCopy? with
  | some d => if d.runtime = i then d.allocations else []
  | none => []

theorem allocationsOn_congr {st st' : Storage} (h : st'.place.deviceCopy? = st.place.deviceCopy?) (i : Nat) :
    st'.allocationsOn i = st.allocationsOn i := by
  rw [allocationsOn, h, allocationsOn]

/-- That a storage has an allocation for each buffer of its payload, and of its size. -/
structure Sized (st : Storage) : Prop where
  takes : ∀ d, st.place.deviceCopy? = some d → st.shape.Takes (d.allocations.map (·.length))
  both : ∀ p d, st.place = .both p d → p.sizes = d.allocations.map (·.length)

end Storage

namespace Session

variable {s t : Session} {d : Deed} {ds : List Deed} {id i : Nat}

/-- What storages have on a runtime. -/
def allocationsOn (s : Session) (i : Nat) : List Allocation := s.storages.values.flatMap (·.allocationsOn i)

/-- **That what lies on runtimes is what storages have there**, each piece one storage's, and
one for each of its buffers. -/
structure Stocked (s : Session) : Prop where
  storages : s.storages.Keyed
  ids : ∀ id st, s.storages.find? id = some st → id ≤ s.ledger.registered
  runtimes : ∀ i, (s.runtime i).Ordered
  held : ∀ i, (s.runtime i).device.held.Perm (s.allocationsOn i)
  sized : ∀ id st, s.storages.find? id = some st → st.Sized

namespace Stocked

theorem start (config : Option Config) : ({ config := config } : Session).Stocked := by
  have hruntime (i : Nat) : ({ config := config } : Session).runtime i = .faultless := by
    rw [runtime, Table.find?_insert]
    split <;> rfl
  refine ⟨Table.keyed_empty, by simp, fun i => ?_, fun i => ?_, by simp⟩
  · rw [hruntime]
    exact ⟨Table.keyed_empty, fun _ _ hfind => by cases hfind⟩
  · rw [hruntime]
    exact .refl _

theorem alike (h : s.Stocked) (hs : s.Alike t) : t.Stocked := by
  have hruntime (i : Nat) : t.runtime i = s.runtime i := by rw [runtime, hs.runtimes, runtime]
  refine ⟨hs.storages ▸ h.storages, fun id st hst => ?_, fun i => hruntime i ▸ h.runtimes i, fun i => ?_,
    fun id st hst => h.sized id st (hs.storages ▸ hst)⟩
  · exact Nat.le_trans (h.ids id st (hs.storages ▸ hst)) hs.registered
  · rw [hruntime, allocationsOn, hs.storages]
    exact h.held i

/-- A runtime on which the same pieces lie. -/
theorem setRuntime (h : s.Stocked) {r : Runtime}
    (hallocations : r.device.allocations = (s.runtime i).device.allocations)
    (huploads : (s.runtime i).device.uploads ≤ r.device.uploads) : (s.setRuntime i r).Stocked := by
  refine ⟨h.storages, h.ids, fun j => ?_, fun j => ?_, h.sized⟩
  · rw [runtime_setRuntime]
    split
    · exact (h.runtimes i).of_device hallocations huploads
    · exact h.runtimes j
  · rw [runtime_setRuntime]
    split
    next heq =>
      rw [Device.held, hallocations, heq]
      exact h.held i
    next => exact h.held j

/-- A storage that has on runtimes what it had. -/
theorem setStorage (h : s.Stocked) {st st' : Storage} (hst : s.storages.find? id = some st)
    (hcopy : st'.place.deviceCopy? = st.place.deviceCopy?) (hsized : st'.Sized) :
    (s.setStorage id st').Stocked := by
  refine ⟨h.storages.insert _ _, fun j st₁ hj => ?_, h.runtimes, fun i => (h.held i).trans ?_,
    fun j st₁ hj => ?_⟩
  · rw [find?_setStorage] at hj
    split at hj
    next heq => exact heq ▸ h.ids id st hst
    next => exact h.ids j st₁ hj
  · have hvalues : (s.setStorage id st').storages.values.Perm (st' :: (s.storages.erase id).values) :=
      (h.storages.perm_insert id st').map _
    refine ((h.storages.perm_values hst).flatMap_right _).trans
      (.trans (.of_eq ?_) (hvalues.flatMap_right _).symm)
    rw [List.flatMap_cons, List.flatMap_cons, Storage.allocationsOn_congr hcopy]
  · rw [find?_setStorage] at hj
    split at hj
    · cases hj
      exact hsized
    · exact h.sized j st₁ hj

/-- **A new storage**, whose pieces lie on a runtime beside all others, if it has any. -/
theorem addStorage (h : s.Stocked) {u : Session} (hstorages : u.storages = s.storages)
    (hledger : u.ledger = s.ledger) {shape : Shape} {place : Place}
    (hruntimes : ∀ i, (u.runtime i).Ordered) (hheld : ∀ i, (u.runtime i).device.held.Perm
      (Storage.allocationsOn i ⟨shape, place, 1⟩ ++ (s.runtime i).device.held))
    (hsized : Storage.Sized ⟨shape, place, 1⟩) : (u.addStorage shape place).2.Stocked := by
  have hfresh : s.storages.find? (s.ledger.registered + 1) = none := Table.find?_succ_of_le h.ids
  have hfind (j : Nat) : (u.addStorage shape place).2.storages.find? j =
      if j = s.ledger.registered + 1 then some ⟨shape, place, 1⟩ else s.storages.find? j := by
    rw [find?_addStorage, hledger, hstorages]
  have hkeyed : (u.addStorage shape place).2.storages.Keyed := by
    show (u.storages.insert _ _).Keyed
    rw [hstorages]
    exact h.storages.insert _ _
  refine ⟨hkeyed, fun j st hj => ?_, hruntimes, fun i => (hheld i).trans ?_, fun j st hj => ?_⟩
  · rw [hfind] at hj
    show j ≤ u.ledger.registered + 1
    rw [hledger]
    split at hj
    next heq => exact Nat.le_of_eq heq
    next => exact Nat.le_succ_of_le (h.ids j st hj)
  · have hvalues : (u.addStorage shape place).2.storages.values.Perm
        (⟨shape, place, 1⟩ :: s.storages.values) := by
      show (u.storages.insert (u.ledger.registered + 1) _).values.Perm _
      rw [hstorages, hledger, Table.values, Table.insert_of_none hfresh, List.map_append]
      exact List.perm_append_singleton _ _
    exact ((h.held i).append_left _).trans (hvalues.flatMap_right _).symm
  · rw [hfind] at hj
    split at hj
    · cases hj
      exact hsized
    · exact h.sized j st hj

/-- **A storage that goes** gives back what it has on its runtime. -/
theorem eraseStorage (h : s.Stocked) {st : Storage} (hst : s.storages.find? id = some st)
    (vectors : Table String Nat) :
    (({ s with vectors := vectors, storages := s.storages.erase id } : Session).freePlace st.place).Stocked := by
  have hsplit (i : Nat) : (s.runtime i).device.held.Perm
      (st.allocationsOn i ++ (s.storages.erase id).values.flatMap (·.allocationsOn i)) :=
    (h.held i).trans ((h.storages.perm_values hst).flatMap_right _)
  have hrest : ∀ j st', (s.storages.erase id).find? j = some st' → s.storages.find? j = some st' :=
    fun j st' hj => (Table.find?_erase_eq_some.mp hj).2
  unfold freePlace
  cases hcopy : st.place.deviceCopy? with
  | none =>
    refine ⟨h.storages.erase id, fun j st' hj => h.ids j st' (hrest j st' hj), h.runtimes, fun i => ?_,
      fun j st' hj => h.sized j st' (hrest j st' hj)⟩
    have hnone := hsplit i
    rw [Storage.allocationsOn, hcopy] at hnone
    exact hnone
  | some d =>
    refine ⟨h.storages.erase id, fun j st' hj => h.ids j st' (hrest j st' hj), fun i => ?_, fun i => ?_,
      fun j st' hj => h.sized j st' (hrest j st' hj)⟩
    all_goals
      have hpieces := hsplit i
      simp only [Storage.allocationsOn, hcopy] at hpieces
      simp only [runtime_setRuntime]
      split
    next heq =>
      subst heq
      rw [if_pos rfl] at hpieces
      exact (Runtime.ordered_freeAll (h.runtimes _) hpieces).1
    next => exact h.runtimes i
    next heq =>
      subst heq
      rw [if_pos rfl] at hpieces
      exact (Runtime.ordered_freeAll (h.runtimes _) hpieces).2
    next hne =>
      rw [if_neg (Ne.symm hne)] at hpieces
      exact hpieces

end Stocked

/-- **Every deed** keeps runtimes stocked. -/
theorem Does.stocked (h : s.Stocked) (hd : s.Does d t) : t.Stocked := by
  cases hd with
  | aside | bind | setBuilder => exact h.alike ⟨rfl, rfl, rfl, Nat.le_refl _⟩
  | enter => exact h.alike ⟨rfl, rfl, rfl, Nat.le_succ _⟩
  | giveUp => exact h.alike (alike_reclaim _ _ _)
  | @fetch j st c buffers r hst hplace hdown =>
    obtain ⟨-, huploads, hallocations, -⟩ := Runtime.of_downloadAll hdown
    have hcopy : st.place.deviceCopy? = some c := by rw [hplace]; rfl
    have htakes := (h.sized j st hst).takes c hcopy
    refine (h.setRuntime hallocations (Nat.le_of_eq huploads.symm)).setStorage hst hcopy.symm ⟨?_, ?_⟩
    · rintro _ ⟨⟩
      exact htakes
    · rintro _ _ ⟨⟩
      have hlengths := Runtime.lengths_of_downloadAll hdown
      rw [← hlengths] at htakes ⊢
      exact htakes.sizes_ofBuffers
  | miss hst hplace hdown =>
    obtain ⟨-, huploads, hallocations, -⟩ := Runtime.of_downloadAll hdown
    exact h.setRuntime hallocations (Nat.le_of_eq huploads.symm)
  | send hup =>
    exact h.setRuntime (Runtime.resumes_of_uploadAll_error (h.runtimes _).bounded hup).allocations
      (Runtime.keeps_of_uploadAll_error hup).uploads
  | store shape p =>
    exact h.addStorage rfl rfl h.runtimes (fun i => .refl _) ⟨fun _ hcopy => (by cases hcopy), fun _ _ hplace => (by cases hplace)⟩
  | @deploy b j allocations r hsuits hup =>
    obtain ⟨hordered, hheld, hlengths⟩ := Runtime.ordered_uploadAll (h.runtimes j) hup
    refine h.addStorage (u := s.setRuntime j r) rfl rfl (fun i => ?_) (fun i => ?_) ⟨?_, fun _ _ hplace => by cases hplace⟩
    · rw [runtime_setRuntime]
      split
      · exact hordered
      · exact h.runtimes i
    · rw [runtime_setRuntime]
      simp only [Storage.allocationsOn, Place.deviceCopy?]
      split
      next heq =>
        subst heq
        rw [if_pos rfl]
        exact hheld
      next hne =>
        rw [if_neg (Ne.symm hne)]
        exact .refl _
    · rintro _ ⟨⟩
      exact ⟨b.payload, Elements.suits_finish hsuits, rfl, hlengths.symm⟩
  | @share j st hst =>
    exact h.setStorage hst rfl ⟨(h.sized j st hst).takes, (h.sized j st hst).both⟩
  | unbind name released =>
    have hunbound := s.unbound_unbind name released
    generalize s.unbind name released = u at hunbound
    cases hunbound with
    | absent => exact h
    | dangling => exact h.alike ⟨rfl, rfl, rfl, Nat.le_refl _⟩
    | last hid hst hlast => exact (h.eraseStorage hst _).alike (alike_reclaim _ _ _)
    | @shared j st hid hst hmore =>
      have h' : ({ s with vectors := s.vectors.erase name } : Session).Stocked :=
        h.alike ⟨rfl, rfl, rfl, Nat.le_refl _⟩
      exact h'.setStorage hst rfl ⟨(h.sized j st hst).takes, (h.sized j st hst).both⟩
  | dropBuilder name =>
    unfold Session.dropBuilder
    split
    · exact h
    next b _ =>
      have h' : ({ s with builders := s.builders.erase name } : Session).Stocked :=
        h.alike ⟨rfl, rfl, rfl, Nat.le_refl _⟩
      exact h'.alike (alike_reclaim _ _ _)
  | newRuntime name plan hfresh =>
    have hnone : s.runtime s.runtimes.size = .faultless := by rw [runtime, hfresh]; rfl
    have h' : (s.setRuntime s.runtimes.size { plan := plan }).Stocked :=
      h.setRuntime (by rw [hnone]; rfl) (by rw [hnone]; exact Nat.le_refl _)
    exact ⟨h'.storages, h'.ids, h'.runtimes, h'.held, h'.sized⟩

theorem Arising.stocked (hs : s.Arising) : s.Stocked := by
  induction hs with
  | start config => exact .start config
  | step h c ih =>
    obtain ⟨ds, hruns, -, -⟩ := does_step h c
    exact hruns.keeps Does.stocked ih

/-- **The sizes of what a storage has on a runtime** are those of the buffers of its column. -/
theorem Arising.sizes (hs : s.Arising) {st : Storage} {c : DeviceCopy}
    (hst : s.storages.find? id = some st) (hcopy : st.place.deviceCopy? = some c) :
    c.allocations.map (·.length) = (s.columnOf st).payload.sizes := by
  have hsized := hs.stocked.sized id st hst
  show _ = (s.payloadOf st).sizes
  cases hplace : st.place with
  | host p =>
    rw [hplace] at hcopy
    cases hcopy
  | both p d =>
    rw [hplace] at hcopy
    cases hcopy
    simp only [payloadOf, hplace]
    exact (hsized.both p c hplace).symm
  | device d =>
    rw [hplace] at hcopy
    cases hcopy
    have hfetched : ((s.runtime c.runtime).fetched c.allocations).map List.length =
        c.allocations.map (·.length) := by
      rw [Runtime.fetched, List.map_map]
      refine List.map_congr_left fun a ha => ?_
      obtain ⟨bytes, hbytes, hlen⟩ := (hs.proper.copies id st c hst (by rw [hplace]; rfl)).2 a ha
      simp [hbytes, hlen]
    have htakes := hsized.takes c (by rw [hplace]; rfl)
    rw [← hfetched] at htakes
    simp only [payloadOf, hplace]
    exact hfetched.symm.trans htakes.sizes_ofBuffers.symm

/-- **The data of a vector is there** as long as it has a name: what keeps it from being
brought is a download that was meant to fail. -/
theorem Arising.error_of_materialize (hs : s.Arising) {v : String} (hv : (s.storage? v).isSome)
    {stop : Stop} (hstop : ((Action.materialize v).exec s).1 = .error stop) :
    ∃ i, ∃ n ∈ (s.runtime i).plan.failingDownloads,
      stop = .fault (.refused (.device (.scheduledDownload n))) := by
  obtain ⟨⟨id, st⟩, hv⟩ := Option.isSome_iff_exists.mp hv
  have hst := (storage?_eq_some.mp hv).2
  cases hplace : st.place with
  | host p =>
    rw [Action.exec_materialize_host hv (.inl hplace)] at hstop
    cases hstop
  | both p d =>
    rw [Action.exec_materialize_host hv (.inr ⟨d, hplace⟩)] at hstop
    cases hstop
  | device d =>
    have hlive := (hs.proper.copies id st d hst (by rw [hplace]; rfl)).2
    rw [Action.exec_materialize_device hv hplace, Action.exec_fetch, runtime_log] at hstop
    rcases hdown : (s.runtime d.runtime).downloadAll d.allocations with ⟨e | buffers, r⟩
    · rw [hdown] at hstop
      obtain ⟨n, hn, rfl⟩ := Runtime.error_of_downloadAll hlive hdown
      cases hstop
      exact ⟨d.runtime, n, hn, rfl⟩
    · rw [hdown] at hstop
      cases hstop

/-- **A device**, told by what storages have on it. -/
theorem Stocked.device (h : s.Stocked) (i : Nat) :
    ((s.runtime i).device.held.map (·.handle)).Nodup ∧
      (s.runtime i).device.allocationCount = (s.allocationsOn i).length ∧
      (s.runtime i).device.bytesInUse = total ((s.allocationsOn i).map (·.length)) := by
  refine ⟨?_, ?_, ?_⟩
  · rw [Device.held, List.map_map]
    exact (h.runtimes i).keyed
  · rw [← (h.held i).length_eq, Device.held, List.length_map]
    rfl
  · rw [Device.bytesInUse_eq]
    exact total_perm ((h.held i).map _)

/-- A runtime on which no storage has anything. -/
theorem Stocked.allocationsOn_eq_nil (h : s.Stocked)
    (hnone : ∀ id st d, s.storages.find? id = some st → st.place.deviceCopy? = some d → d.runtime ≠ i) :
    s.allocationsOn i = [] := by
  refine List.flatMap_eq_nil_iff.mpr fun st hst => ?_
  obtain ⟨id, hfind⟩ := h.storages.mem_values.mp hst
  unfold Storage.allocationsOn
  split
  next d hcopy => exact if_neg (hnone id st d hfind hcopy)
  next => rfl

theorem Arising.named (hs : s.Arising) {st : Storage} (hst : s.storages.find? id = some st) :
    ∃ name, s.storage? name = some (id, st) := by
  have hthere : (s.handles? id).isSome := by simp [handles?, hst]
  have hmem := hs.balanced.isSome_iff.mp hthere
  simp only [List.not_mem_nil, or_false] at hmem
  obtain ⟨name, hname⟩ := hs.balanced.vectors.mem_values.mp hmem
  exact ⟨name, storage?_eq_some.mpr ⟨hname, hst⟩⟩

theorem Reachable.arising {T : Limits} (hs : s.Reachable T) : s.Arising := by
  induction hs with
  | start config => exact .start config
  | step _ _ ih => exact ih.step _

/-- **What lies on a runtime is what the vectors have there that still have a handle.** In
any session that commands lead to, whatever fails on its runtimes: the pieces that lie on
a runtime are those of the storages that were built on it, each with a handle of its own,
and the bytes in use are the sum of their sizes; nothing is left there once none of these
has a name. A storage is there as long as it has a name, and its data is brought unless a
download is meant to fail. It has a piece on its runtime for each buffer of its column, of
the size of that buffer; where runtimes bring bytes back as they are, these are the sizes
that the rows ask for. -/
theorem held_of_arising (hs : s.Arising) :
    (∀ i, let device := (s.runtime i).device
      device.held.Perm (s.allocationsOn i) ∧ (device.held.map (·.handle)).Nodup ∧
        device.allocationCount = (s.allocationsOn i).length ∧
        device.bytesInUse = total ((s.allocationsOn i).map (·.length)) ∧
        ((∀ name id st d, s.storage? name = some (id, st) → st.place.deviceCopy? = some d → d.runtime ≠ i) →
          device.allocationCount = 0 ∧ device.bytesInUse = 0)) ∧
    (∀ id st, s.storages.find? id = some st →
      (∃ name, s.storage? name = some (id, st)) ∧
      ∀ d, st.place.deviceCopy? = some d →
        d.allocations.map (·.length) = (s.columnOf st).payload.sizes ∧
        (s.Reachable .unlimited → d.allocations.map (·.length) = (s.columnOf st).askedSizes)) ∧
    ∀ v, (s.storage? v).isSome → ∀ stop, ((Action.materialize v).exec s).1 = .error stop →
      ∃ i, ∃ n ∈ (s.runtime i).plan.failingDownloads,
        stop = .fault (.refused (.device (.scheduledDownload n))) := by
  have hstocked := hs.stocked
  refine ⟨fun i => ?_, fun id st hst => ⟨hs.named hst, fun d hcopy => ⟨hs.sizes hst hcopy, fun hreach => ?_⟩⟩,
    fun v hv stop hstop => hs.error_of_materialize hv hstop⟩
  · obtain ⟨hnodup, hcount, hbytes⟩ := hstocked.device i
    refine ⟨hstocked.held i, hnodup, hcount, hbytes, fun hnone => ?_⟩
    have hnil : s.allocationsOn i = [] := hstocked.allocationsOn_eq_nil fun id st d hst hcopy =>
      (hs.named hst).elim fun name hname => hnone name id st d hname hcopy
    rw [hcount, hbytes, hnil]
    exact ⟨rfl, rfl⟩
  · have hwell := (hreach.sound invariant_wellFormed).columns id (s.columnOf st) (by simp [column?, hst])
    obtain ⟨rows, hrows⟩ := hwell.holds
    rw [hs.sizes hst hcopy, hrows.sizes_eq_asked]

/-- Strings are sent in vain, and then with all three buffers; the second of two handles
gives all of it back. -/
theorem held_of_texts :
    let s := (Session.run { config := none } [.newBuilder "b" .string 2 true,
      .newRuntime "r" { failingUploads := [2] }, .append "b" (.rows (.text "é")),
      .build "b" (.runtime "r") "v", .build "b" (.runtime "r") "v", .make (.share "v") "w", .drop "v"]).2
    let t := (s.step (.close "w")).2
    s.Arising ∧ (∃ st d, s.storage? "w" = some (2, st) ∧ st.place.deviceCopy? = some d ∧
      d.allocations.map (·.length) = (s.columnOf st).askedSizes) ∧
      (s.runtime 1).device.bytesInUse = 2 + 4 * (1 + 1) + 64 ∧
      t.Arising ∧ (t.runtime 1).device.allocationCount = 0 ∧ (t.runtime 1).device.bytesInUse = 0 := by
  intro s t
  have hreach : s.Reachable .unlimited := by
    refine (Reachable.start none).run ?_
    simp [Command.Within, FaultPlan.Faithful, Runtime.FaultPlan.tamper]
  have hs : s.Arising := hreach.arising
  obtain ⟨hdevices, hstorages, -⟩ := held_of_arising hs
  have hw : s.storage? "w" = some (2, ⟨⟨.string, 1, 0, true⟩, .device ⟨1, [⟨2, 2⟩, ⟨3, 8⟩, ⟨4, 64⟩]⟩, 1⟩) := by
    rfl
  have hst := (storage?_eq_some.mp hw).2
  have hbytes := (hdevices 1).2.2.2.1
  have ht : t.Arising := hs.step _
  have hnameless : t.vectors.entries = [] := by decide +kernel
  have hgone : ∀ name id st d, t.storage? name = some (id, st) → st.place.deviceCopy? = some d → d.runtime ≠ 1 := by
    intro name id st d hname
    have hid := (storage?_eq_some.mp hname).1
    rw [Table.find?, hnameless] at hid
    cases hid
  refine ⟨hs, ⟨_, _, hw, rfl, ((hstorages 2 _ hst).2 _ rfl).2 hreach⟩, ?_, ht, ((held_of_arising ht).1 1).2.2.2.2 hgone⟩
  rw [hbytes]
  decide +kernel

end Session

end Columnar
