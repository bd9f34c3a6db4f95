/-
Transfers to a device and back.

A payload is its buffers (`Payload.ofBuffers_buffers`), and a device gives back
what it was sent: after `Runtime.of_uploadAll` the buffers lie under fresh
handles, and `Runtime.of_downloadAll` fetches what lies under handles, provided
that the runtime brings the bytes as they are. Nothing that lay on the device
before is touched (`Runtime.Keeps`), also by transfers that fail. All of them are
fetched just if each download in order brings its bytes (`Runtime.Brings`), and
the first that fails is the last one tried (`Runtime.Misses`).
-/
import Columnar.Device.Transfer
import Columnar.Proofs.Rows
import Columnar.Proofs.Tables

namespace Columnar

/-! ## Payloads as buffers -/

namespace Payload

theorem length_encodeOffsets (offsets : List UInt32) :
    (encodeOffsets offsets).length = 4 * offsets.length := by
  induction offsets with
  | nil => rfl
  | cons o offsets ih =>
    rw [encodeOffsets, List.flatMap_cons, List.length_append, LittleEndian.length_encode, ← encodeOffsets, ih,
      List.length_cons, Nat.mul_succ, Nat.add_comm]

theorem decode_encodeOffsets (offsets : List UInt32) :
    decodeOffsets (encodeOffsets offsets) = offsets := by
  have hpieces : ∀ cell ∈ offsets.map fun o => LittleEndian.encode 4 o.toNat, cell.length = 4 := by
    intro cell hcell
    obtain ⟨o, -, rfl⟩ := List.mem_map.mp hcell
    exact LittleEndian.length_encode _ _
  have hlen := Elements.length_flatten_of_uniform hpieces
  have hround (o : UInt32) : UInt32.ofNat (LittleEndian.decode (LittleEndian.encode 4 o.toNat)) = o := by
    rw [LittleEndian.decode_encode_of_lt o.toNat_lt]
    exact UInt32.ofNat_toNat
  have hcut := Elements.pieces_flatten hpieces
  rw [List.length_map] at hlen hcut
  rw [decodeOffsets, encodeOffsets, List.flatMap_def, hlen, Nat.mul_div_cancel _ (by decide), hcut,
    List.map_map]
  simp [Function.comp_def, hround]

/-- **A payload is its buffers**, read by the shape of its column. -/
theorem ofBuffers_buffers {c : Column} (h : c.payload.elements.Suits c.kind) :
    ofBuffers c.shape (buffers c.payload) = c.payload := by
  obtain ⟨k, n, nulls, ⟨elements, validity⟩⟩ := c
  cases elements <;> cases validity <;>
    simp [Elements.Suits] at h <;>
    simp [ofBuffers, buffers, Column.shape, Elements.data, Elements.offsets?, h, decode_encodeOffsets]

theorem isSome_validity_ofBuffers (shape : Shape) (buffers : List Bytes) :
    (ofBuffers shape buffers).validity.isSome = shape.hasValidity := by
  cases h : shape.hasValidity <;> simp [ofBuffers, h]

end Payload

/-! ## Devices -/

/-- That a plan leaves downloaded bytes as they are. -/
def FaultPlan.Faithful (plan : FaultPlan) : Prop :=
  ∀ attempt bytes, Runtime.FaultPlan.tamper plan attempt bytes = bytes

namespace Runtime

/-- The bytes that lie on the device under a handle. -/
def find? (r : Runtime) (handle : Nat) : Option Bytes := r.device.allocations.find? handle

/-- That nothing lies under a handle that has not been given out. -/
def Bounded (r : Runtime) : Prop := ∀ h bytes, r.find? h = some bytes → h ≤ r.device.uploads

/-- That an allocation lies on the device with its length. -/
def Live (r : Runtime) (a : Allocation) : Prop :=
  ∃ bytes, r.find? a.handle = some bytes ∧ bytes.length = a.length

/-- That a runtime has changed, but nothing that lay on its device. -/
structure Keeps (r r' : Runtime) : Prop where
  plan : r'.plan = r.plan
  uploads : r.device.uploads ≤ r'.device.uploads
  kept : ∀ h ≤ r.device.uploads, r'.find? h = r.find? h
  bounded : r.Bounded → r'.Bounded

theorem Keeps.refl (r : Runtime) : r.Keeps r := ⟨rfl, Nat.le_refl _, fun _ _ => rfl, id⟩

theorem Keeps.trans {r r' r'' : Runtime} (h : r.Keeps r') (h' : r'.Keeps r'') : r.Keeps r'' where
  plan := h'.plan.trans h.plan
  uploads := Nat.le_trans h.uploads h'.uploads
  kept i hi := (h'.kept i (Nat.le_trans hi h.uploads)).trans (h.kept i hi)
  bounded hb := h'.bounded (h.bounded hb)

/-- A runtime whose device is as it was has lost nothing. -/
theorem Keeps.of_device {r r' : Runtime} (hplan : r'.plan = r.plan)
    (huploads : r'.device.uploads = r.device.uploads)
    (hallocations : r'.device.allocations = r.device.allocations) : r.Keeps r' where
  plan := hplan
  uploads := Nat.le_of_eq huploads.symm
  kept i _ := by rw [find?, hallocations, find?]
  bounded hb i bytes hfind := by
    rw [find?, hallocations] at hfind
    exact huploads ▸ hb i bytes hfind

/-- The bytes that lie on the device for allocations. -/
def fetched (r : Runtime) (allocations : List Allocation) : List Bytes :=
  allocations.map fun a => (r.find? a.handle).getD []

theorem fetched_congr {r r' : Runtime} {allocations : List Allocation}
    (h : ∀ a ∈ allocations, r'.find? a.handle = r.find? a.handle) :
    r'.fetched allocations = r.fetched allocations :=
  List.map_congr_left fun a ha => by rw [h a ha]

theorem Live.congr {r r' : Runtime} {a : Allocation} (h : r.Live a)
    (hfind : r'.find? a.handle = r.find? a.handle) : r'.Live a := by
  obtain ⟨bytes, hbytes, hlen⟩ := h
  exact ⟨bytes, hfind.trans hbytes, hlen⟩

/-! ### Uploads -/

/-- An upload that fails changes nothing on the device. -/
theorem keeps_of_upload_error {r r' : Runtime} {bytes : Bytes} {e : DeviceError}
    (h : r.upload bytes = (.error e, r')) : r.Keeps r' := by
  unfold upload at h
  simp only at h
  split at h
  · obtain ⟨-, rfl⟩ := Prod.mk.inj h
    exact .of_device rfl rfl rfl
  · cases h

/-- **An upload** puts the bytes under a fresh handle. -/
theorem of_upload {r r' : Runtime} {bytes : Bytes} {a : Allocation} (h : r.upload bytes = (.ok a, r')) :
    r.Keeps r' ∧ r.device.uploads < a.handle ∧ a.handle ≤ r'.device.uploads ∧
      r'.find? a.handle = some bytes ∧ a.length = bytes.length := by
  unfold upload at h
  simp only at h
  split at h
  · cases h
  · obtain ⟨ha, rfl⟩ := Prod.mk.inj h
    cases ha
    refine ⟨⟨rfl, Nat.le_succ _, fun i hi => ?_, fun hb i bytes hfind => ?_⟩, Nat.lt_succ_self _,
      Nat.le_refl _, ?_, rfl⟩
    · exact Table.find?_insert_of_ne _ _ (Nat.ne_of_lt (Nat.lt_succ_of_le hi))
    · by_cases hi : i = r.device.uploads + 1
      · exact Nat.le_of_eq hi
      · have hfind : r.find? i = some bytes := (Table.find?_insert_of_ne _ _ hi).symm.trans hfind
        exact Nat.le_succ_of_le (hb i bytes hfind)
    · exact Table.find?_insert_self _ _ _

theorem Keeps.free {r r' : Runtime} (h : r.Keeps r') {a : Allocation}
    (ha : r.device.uploads < a.handle) : r.Keeps (r'.free a) where
  plan := h.plan
  uploads := h.uploads
  kept i hi := by
    rw [← h.kept i hi]
    exact Table.find?_erase_of_ne _ (Nat.ne_of_lt (Nat.lt_of_le_of_lt hi ha))
  bounded hb i bytes hfind := h.bounded hb i bytes (Table.find?_erase_eq_some.mp hfind).2

/-- Uploads that fail change nothing that lay on the device. -/
theorem keeps_of_uploadAll_error {r r' : Runtime} {buffers : List Bytes} {e : DeviceError}
    (h : r.uploadAll buffers = (.error e, r')) : r.Keeps r' := by
  induction buffers generalizing r r' e with
  | nil => cases h
  | cons bytes rest ih =>
    rw [uploadAll] at h
    split at h
    next e' r₁ hup =>
      obtain ⟨-, rfl⟩ := Prod.mk.inj h
      exact keeps_of_upload_error hup
    next a r₁ hup =>
      obtain ⟨hkeeps, hfresh, -⟩ := of_upload hup
      split at h
      next e' r₂ hrest =>
        obtain ⟨-, rfl⟩ := Prod.mk.inj h
        exact (hkeeps.trans (ih hrest)).free hfresh
      next => cases h

/-- **Uploads** put the buffers under fresh handles. -/
theorem of_uploadAll {r r' : Runtime} {buffers : List Bytes} {allocations : List Allocation}
    (h : r.uploadAll buffers = (.ok allocations, r')) :
    r.Keeps r' ∧
      (∀ a ∈ allocations, r.device.uploads < a.handle ∧ a.handle ≤ r'.device.uploads ∧ r'.Live a) ∧
      r'.fetched allocations = buffers := by
  induction buffers generalizing r r' allocations with
  | nil =>
    cases h
    exact ⟨Keeps.refl r, by simp, rfl⟩
  | cons bytes rest ih =>
    rw [uploadAll] at h
    split at h
    next => cases h
    next a r₁ hup =>
      obtain ⟨hkeeps, hfresh, hle, hfind, hlen⟩ := of_upload hup
      split at h
      next => cases h
      next as r₂ hrest =>
        obtain ⟨has, rfl⟩ := Prod.mk.inj h
        cases has
        obtain ⟨hkeeps', hmem, hfetched⟩ := ih hrest
        have hkept := hkeeps'.kept a.handle hle
        refine ⟨hkeeps.trans hkeeps', ?_, ?_⟩
        · intro b hb
          rcases List.mem_cons.mp hb with rfl | hb
          · exact ⟨hfresh, Nat.le_trans hle hkeeps'.uploads, bytes, hkept.trans hfind, hlen.symm⟩
          · exact ⟨Nat.lt_of_le_of_lt hkeeps.uploads (hmem b hb).1, (hmem b hb).2⟩
        · rw [Runtime.fetched, List.map_cons, hkept, hfind, ← hfetched]
          rfl

/-! ### Downloads -/

/-- What a download leaves of the runtime, and the bytes that it brings. -/
theorem of_download {r r' : Runtime} {a : Allocation} {x : Except DeviceError Bytes}
    (h : r.download a = (x, r')) :
    r'.plan = r.plan ∧ r'.device.uploads = r.device.uploads ∧
      r'.device.allocations = r.device.allocations ∧
      ∀ bytes, x = .ok bytes → r.plan.Faithful → (r.find? a.handle).getD [] = bytes := by
  unfold download at h
  simp only at h
  split at h
  · obtain ⟨rfl, rfl⟩ := Prod.mk.inj h
    exact ⟨rfl, rfl, rfl, fun _ hbytes => by cases hbytes⟩
  · split at h
    next e hdown =>
      obtain ⟨rfl, rfl⟩ := Prod.mk.inj h
      exact ⟨rfl, rfl, rfl, fun _ hbytes => by cases hbytes⟩
    next bytes device hdown =>
      obtain ⟨rfl, rfl⟩ := Prod.mk.inj h
      rw [Device.download_eq] at hdown
      split at hdown
      next => cases hdown
      next found hfound =>
        split at hdown
        next =>
          cases hdown
          refine ⟨rfl, rfl, rfl, ?_⟩
          rintro _ ⟨⟩ hfaithful
          rw [hfaithful, find?, hfound, Option.getD_some]
        next => cases hdown

/-- Downloads one after the other, each on the runtime that the one before has left, and the bytes
that each of them brings. -/
inductive Brings : Runtime → List Allocation → List Bytes → Runtime → Prop where
  | nil (r : Runtime) : Brings r [] [] r
  | cons {r r₁ r' : Runtime} {a : Allocation} {as : List Allocation} {bytes : Bytes} {all : List Bytes}
      (hdown : r.download a = (.ok bytes, r₁)) (hrest : Brings r₁ as all r') :
    Brings r (a :: as) (bytes :: all) r'

/-- Downloads one after the other, up to the first that fails. -/
inductive Misses : Runtime → List Allocation → DeviceError → Runtime → Prop where
  | here {r r' : Runtime} {a : Allocation} {e : DeviceError} (as : List Allocation)
      (hdown : r.download a = (.error e, r')) : Misses r (a :: as) e r'
  | later {r r₁ r' : Runtime} {a : Allocation} {as : List Allocation} {bytes : Bytes} {e : DeviceError}
      (hdown : r.download a = (.ok bytes, r₁)) (hrest : Misses r₁ as e r') : Misses r (a :: as) e r'

theorem Brings.downloadAll {r r' : Runtime} {as : List Allocation} {buffers : List Bytes}
    (h : r.Brings as buffers r') : r.downloadAll as = (.ok buffers, r') := by
  induction h with
  | nil r => rfl
  | cons hdown _ ih => simp only [Runtime.downloadAll, hdown, ih]

theorem Misses.downloadAll {r r' : Runtime} {as : List Allocation} {e : DeviceError}
    (h : r.Misses as e r') : r.downloadAll as = (.error e, r') := by
  induction h with
  | here as hdown => simp only [Runtime.downloadAll, hdown]
  | later hdown _ ih => simp only [Runtime.downloadAll, hdown, ih]

/-- Either every download brings its bytes, or one is the first that fails. -/
theorem brings_or_misses (r : Runtime) (as : List Allocation) :
    (∃ buffers r', r.Brings as buffers r') ∨ ∃ e r', r.Misses as e r' := by
  induction as generalizing r with
  | nil => exact .inl ⟨_, _, .nil r⟩
  | cons a as ih =>
    rcases hdown : r.download a with ⟨e | bytes, r₁⟩
    · exact .inr ⟨e, r₁, .here as hdown⟩
    · exact (ih r₁).imp (fun ⟨buffers, r', h⟩ => ⟨bytes :: buffers, r', .cons hdown h⟩)
        fun ⟨e, r', h⟩ => ⟨e, r', .later hdown h⟩

/-- **All buffers are brought** just if every download in order brings its own. -/
theorem downloadAll_eq_ok {r r' : Runtime} {as : List Allocation} {buffers : List Bytes} :
    r.downloadAll as = (.ok buffers, r') ↔ r.Brings as buffers r' := by
  refine ⟨fun h => ?_, Brings.downloadAll⟩
  rcases brings_or_misses r as with ⟨_, _, hbrings⟩ | ⟨_, _, hmisses⟩
  · obtain ⟨⟨⟩, rfl⟩ := Prod.mk.inj (hbrings.downloadAll.symm.trans h)
    exact hbrings
  · cases hmisses.downloadAll.symm.trans h

/-- **Buffers are missed** at the first download that fails. -/
theorem downloadAll_eq_error {r r' : Runtime} {as : List Allocation} {e : DeviceError} :
    r.downloadAll as = (.error e, r') ↔ r.Misses as e r' := by
  refine ⟨fun h => ?_, Misses.downloadAll⟩
  rcases brings_or_misses r as with ⟨_, _, hbrings⟩ | ⟨_, _, hmisses⟩
  · cases hbrings.downloadAll.symm.trans h
  · obtain ⟨⟨⟩, rfl⟩ := Prod.mk.inj (hmisses.downloadAll.symm.trans h)
    exact hmisses

/-- **Downloads** bring what lies under the handles and change nothing there. -/
theorem of_downloadAll {r r' : Runtime} {allocations : List Allocation}
    {x : Except DeviceError (List Bytes)} (h : r.downloadAll allocations = (x, r')) :
    r'.plan = r.plan ∧ r'.device.uploads = r.device.uploads ∧
      r'.device.allocations = r.device.allocations ∧
      ∀ buffers, x = .ok buffers → r.plan.Faithful → r.fetched allocations = buffers := by
  cases x with
  | error e =>
    suffices r'.plan = r.plan ∧ r'.device.uploads = r.device.uploads ∧
        r'.device.allocations = r.device.allocations from
      ⟨this.1, this.2.1, this.2.2, fun _ hbuffers => by cases hbuffers⟩
    induction downloadAll_eq_error.mp h with
    | here as hdown =>
      obtain ⟨hplan, huploads, hallocations, -⟩ := of_download hdown
      exact ⟨hplan, huploads, hallocations⟩
    | later hdown hrest ih =>
      obtain ⟨hplan, huploads, hallocations, -⟩ := of_download hdown
      obtain ⟨hplan', huploads', hallocations'⟩ := ih hrest.downloadAll
      exact ⟨hplan'.trans hplan, huploads'.trans huploads, hallocations'.trans hallocations⟩
  | ok buffers =>
    induction downloadAll_eq_ok.mp h with
    | nil r => exact ⟨rfl, rfl, rfl, fun _ hbuffers _ => Except.ok.inj hbuffers⟩
    | @cons r r₁ r' a rest bytes all hdown hrest ih =>
      obtain ⟨hplan, huploads, hallocations, hbytes⟩ := of_download hdown
      obtain ⟨hplan', huploads', hallocations', hall⟩ := ih hrest.downloadAll
      refine ⟨hplan'.trans hplan, huploads'.trans huploads, hallocations'.trans hallocations, ?_⟩
      rintro _ ⟨⟩ hfaithful
      have hsame : r₁.fetched rest = r.fetched rest := by
        simp only [Runtime.fetched, find?, hallocations]
      rw [Runtime.fetched, List.map_cons, hbytes bytes rfl hfaithful, ← hall all rfl (hplan ▸ hfaithful),
        hsame]
      rfl

theorem keeps_of_downloadAll {r r' : Runtime} {allocations : List Allocation}
    {x : Except DeviceError (List Bytes)} (h : r.downloadAll allocations = (x, r')) : r.Keeps r' := by
  obtain ⟨hplan, huploads, hallocations, -⟩ := of_downloadAll h
  exact .of_device hplan huploads hallocations

/-! ### Reliable runtimes -/

/-- That nothing goes wrong on a runtime from now on. -/
structure Reliable (r : Runtime) : Prop where
  uploads : ∀ n, r.uploadAttempts < n → n ∉ r.plan.failingUploads
  downloads : ∀ n, r.downloadAttempts < n → n ∉ r.plan.failingDownloads
  untampered : ∀ n bytes, r.downloadAttempts < n → FaultPlan.tamper r.plan n bytes = bytes

theorem Reliable.upload {r : Runtime} (h : r.Reliable) (bytes : Bytes) :
    ∃ a r', r.upload bytes = (.ok a, r') ∧ r'.Reliable := by
  have hattempt := h.uploads (r.uploadAttempts + 1) (Nat.lt_succ_self _)
  simp only [Runtime.upload, if_neg hattempt]
  exact ⟨_, _, rfl, fun n hn => h.uploads n (Nat.lt_of_succ_lt hn), h.downloads, h.untampered⟩

/-- A reliable runtime takes every buffer. -/
theorem Reliable.uploadAll {r : Runtime} (h : r.Reliable) (buffers : List Bytes) :
    ∃ allocations r', r.uploadAll buffers = (.ok allocations, r') ∧ r'.Reliable := by
  induction buffers generalizing r with
  | nil => exact ⟨[], r, rfl, h⟩
  | cons bytes rest ih =>
    obtain ⟨a, r₁, hup, h₁⟩ := h.upload bytes
    obtain ⟨allocations, r₂, hrest, h₂⟩ := ih h₁
    exact ⟨a :: allocations, r₂, by rw [Runtime.uploadAll, hup]; simp only [hrest], h₂⟩

theorem Reliable.download {r : Runtime} (h : r.Reliable) {a : Allocation} (ha : r.Live a) :
    ∃ r', r.download a = (.ok ((r.find? a.handle).getD []), r') ∧ r'.Reliable := by
  obtain ⟨bytes, hbytes, hlen⟩ := ha
  have hattempt := h.downloads (r.downloadAttempts + 1) (Nat.lt_succ_self _)
  have hdevice : r.device.download a.handle a.length =
      .ok (bytes, { r.device with downloads := r.device.downloads + 1 }) := by
    rw [find?] at hbytes
    simp only [Device.download_eq, hbytes, if_pos hlen]
  simp only [Runtime.download, if_neg hattempt, hdevice, hbytes, Option.getD_some,
    h.untampered _ bytes (Nat.lt_succ_self _)]
  exact ⟨_, rfl, h.uploads, fun n hn => h.downloads n (Nat.lt_of_succ_lt hn),
    fun n bytes hn => h.untampered n bytes (Nat.lt_of_succ_lt hn)⟩

/-- A reliable runtime brings what lies on its device. -/
theorem Reliable.downloadAll {r : Runtime} (h : r.Reliable) {allocations : List Allocation}
    (hlive : ∀ a ∈ allocations, r.Live a) :
    ∃ r', r.downloadAll allocations = (.ok (r.fetched allocations), r') ∧ r'.Reliable := by
  induction allocations generalizing r with
  | nil => exact ⟨r, rfl, h⟩
  | cons a rest ih =>
    obtain ⟨r₁, hdown, h₁⟩ := h.download (hlive a (by simp))
    obtain ⟨-, -, hallocations, -⟩ := of_download hdown
    have hfind (i : Nat) : r₁.find? i = r.find? i := by rw [find?, hallocations, find?]
    obtain ⟨r₂, hrest, h₂⟩ := ih h₁ fun b hb => (hlive b (by simp [hb])).congr (hfind _)
    rw [fetched_congr fun b _ => hfind b.handle] at hrest
    exact ⟨r₂, by rw [Runtime.downloadAll, hdown]; simp only [hrest]; rfl, h₂⟩

/-! ### Giving back -/

/-- Giving allocations back leaves what lies under other handles. -/
theorem of_freeAll (r : Runtime) (allocations : List Allocation) :
    (r.freeAll allocations).plan = r.plan ∧
      (r.freeAll allocations).device.uploads = r.device.uploads ∧
      (r.Bounded → (r.freeAll allocations).Bounded) ∧
      ∀ i, (∀ a ∈ allocations, a.handle ≠ i) → (r.freeAll allocations).find? i = r.find? i := by
  induction allocations generalizing r with
  | nil => exact ⟨rfl, rfl, id, fun _ _ => rfl⟩
  | cons a rest ih =>
    obtain ⟨hplan, huploads, hbounded, hfind⟩ := ih (r.free a)
    refine ⟨hplan, huploads, fun hb => hbounded ?_, fun i hi => ?_⟩
    · exact fun i bytes hi => hb i bytes (Table.find?_erase_eq_some.mp hi).2
    · refine (hfind i fun b hb => hi b (by simp [hb])).trans ?_
      exact Table.find?_erase_of_ne _ (Ne.symm (hi a (by simp)))

theorem Reliable.freeAll {r : Runtime} (h : r.Reliable) (allocations : List Allocation) :
    (r.freeAll allocations).Reliable := by
  induction allocations generalizing r with
  | nil => exact h
  | cons a rest ih => exact ih (r := r.free a) ⟨h.uploads, h.downloads, h.untampered⟩

end Runtime

end Columnar
