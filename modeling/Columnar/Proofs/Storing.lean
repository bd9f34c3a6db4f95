/-
A device is a faithful store.

Requests are made of a device one after another, and each is recorded with its answer.
The record alone tells which handles have been given out (`handles`) and what has been
uploaded and not been freed since (`standing`). One request keeps the device and the
record of it together (`Records.serve`), and so do any number (`Records.run`): a copy
brings what stands under its handle, whatever else was asked for in between.
-/
import Columnar.Proofs.Outcomes
import Columnar.Proofs.Tables
import Columnar.Device

namespace Columnar.Device

/-! ## Requests and their record -/

/-- What can be asked of a device. -/
inductive Request where
  | upload (bytes : Bytes)
  | copy (handle : Nat) (destination : Bytes)
  | free (handle : Nat)
  deriving DecidableEq, Repr

def Request.isUpload : Request → Bool
  | upload _ => true
  | _ => false

/-- What a device answers. -/
inductive Answer where
  | given (handle : Nat)
  /-- How a copy went, and its destination afterwards. -/
  | copied (result : Except DeviceError Unit) (destination : Bytes)
  | freed
  deriving Repr

/-- A request with its answer. -/
structure Exchange where
  request : Request
  answer : Answer
  deriving Repr

/-- One request served. -/
def serve (d : Device) : Request → Answer × Device
  | .upload bytes => let (handle, d) := d.upload bytes; (.given handle, d)
  | .copy handle destination =>
    let (result, destination, d) := d.copyTo handle destination
    (.copied result destination, d)
  | .free handle => (.freed, d.free handle)

/-- Requests served one after another: the record of them, and the device afterwards. -/
def run (d : Device) : List Request → List Exchange × Device
  | [] => ([], d)
  | request :: rest =>
    let (answer, d) := d.serve request
    let (record, d) := d.run rest
    (⟨request, answer⟩ :: record, d)

/-- The handle that an exchange gave out. -/
def Exchange.given? : Exchange → Option Nat
  | ⟨.upload _, .given handle⟩ => some handle
  | _ => none

/-- The handle that an exchange was to free. -/
def Exchange.freed? : Exchange → Option Nat
  | ⟨.free handle, _⟩ => some handle
  | _ => none

/-- Whether an exchange brought bytes. -/
def Exchange.brought : Exchange → Bool
  | ⟨.copy _ _, .copied (.ok ()) _⟩ => true
  | _ => false

/-- The handles that have been given out, in order. -/
def handles (record : List Exchange) : List Nat := record.filterMap Exchange.given?

/-- The handles that were to be freed, known or not. -/
def frees (record : List Exchange) : List Nat := record.filterMap Exchange.freed?

/-- What has been uploaded and not been freed since, by handle. -/
def standing : List Exchange → List (Nat × Bytes)
  | [] => []
  | ⟨.upload bytes, .given handle⟩ :: later =>
    if handle ∈ frees later then standing later else (handle, bytes) :: standing later
  | _ :: later => standing later

variable {d : Device} {record : List Exchange}

theorem standing_append (past later : List Exchange) :
    standing (past ++ later) = (standing past).filter (·.1 ∉ frees later) ++ standing later := by
  fun_induction standing past with
  | case1 => rfl
  | case2 bytes handle rest hfreed ih =>
    have hfreed' : handle ∈ frees (rest ++ later) := by
      rw [frees, List.filterMap_append]
      exact List.mem_append_left _ hfreed
    rw [List.cons_append, standing, if_pos hfreed', ih]
  | case3 bytes handle rest hkept ih =>
    have hsplit : handle ∈ frees (rest ++ later) ↔ handle ∈ frees later := by
      rw [frees, List.filterMap_append, List.mem_append, ← frees, ← frees]
      exact or_iff_right hkept
    rw [List.cons_append, standing, ih]
    by_cases hlater : handle ∈ frees later
    · rw [if_pos (hsplit.mpr hlater), List.filter_cons_of_neg (by simpa using hlater)]
    · rw [if_neg (mt hsplit.mp hlater), List.filter_cons_of_pos (by simpa using hlater), List.cons_append]
  | case4 e rest hother ih =>
    rw [List.cons_append, standing, ih]
    exact hother

/-- What an exchange that frees nothing leaves standing. -/
theorem standing_concat {e : Exchange} (he : e.freed? = none) :
    standing (record ++ [e]) = standing record ++ standing [e] := by
  rw [standing_append, List.filter_eq_self.mpr fun g _ => ?_]
  rw [frees, List.filterMap_cons_none he]
  rfl

theorem standing_sublist (record : List Exchange) :
    ((standing record).map (·.1)).Sublist (handles record) := by
  fun_induction standing record with
  | case1 => exact .refl _
  | case2 bytes handle rest hfreed ih => exact ih.cons _
  | case3 bytes handle rest hkept ih => exact ih.cons_cons _
  | case4 e rest hother ih =>
    rw [handles, List.filterMap_cons, ← handles]
    split
    · exact ih
    · exact ih.cons _

/-! ## What the record tells of the device -/

/-- **A copy that fails** changes nothing, the destination included. -/
theorem copyTo_of_error {handle : Nat} {destination : Bytes} {e : DeviceError}
    (he : (d.copyTo handle destination).1 = .error e) :
    d.copyTo handle destination = (.error e, destination, d) := by
  unfold copyTo at he ⊢
  split at he
  next =>
    cases he
    rfl
  next bytes hfound =>
    split at he
    next => cases he
    next hlen =>
      cases he
      rw [if_neg hlen]

theorem uploads_copyTo (d : Device) (handle : Nat) (destination : Bytes) :
    (d.copyTo handle destination).2.2.uploads = d.uploads := by
  unfold copyTo
  split
  · rfl
  · split <;> rfl

/-- That a device is as the record of what has been asked of it tells. -/
structure Records (record : List Exchange) (d : Device) : Prop where
  allocations : d.allocations.entries = standing record
  handles : handles record = List.range' 1 d.uploads
  downloads : d.downloads = record.countP Exchange.brought

theorem records_new : Records [] {} := ⟨rfl, rfl, rfl⟩

namespace Records

theorem nodup (h : Records record d) : (Device.handles record).Nodup :=
  h.handles ▸ List.nodup_range'

theorem keyed (h : Records record d) : d.allocations.Keyed := by
  rw [Table.Keyed, h.allocations]
  exact h.nodup.sublist (standing_sublist record)

/-- **What is found** under a handle is what stands there. -/
theorem find?_eq_some (h : Records record d) {handle : Nat} {bytes : Bytes} :
    d.allocations.find? handle = some bytes ↔ (handle, bytes) ∈ standing record := by
  rw [h.keyed.find?_eq_some, h.allocations]

theorem find?_eq_none (h : Records record d) {handle : Nat} :
    d.allocations.find? handle = none ↔ ∀ bytes, (handle, bytes) ∉ standing record := by
  rw [Option.eq_none_iff_forall_ne_some]
  exact forall_congr' fun bytes => not_congr h.find?_eq_some

theorem handle_mem (h : Records record d) {handle : Nat} :
    handle ∈ Device.handles record ↔ 1 ≤ handle ∧ handle ≤ d.uploads := by
  rw [h.handles, List.mem_range'_1]
  omega

theorem next_is_free (h : Records record d) : d.allocations.find? (d.uploads + 1) = none := by
  refine Table.find?_succ_of_le fun handle bytes hfound => ?_
  have hmem := List.mem_map_of_mem (f := (·.1)) (h.find?_eq_some.mp hfound)
  exact (h.handle_mem.mp ((standing_sublist record).subset hmem)).2

/-! ### Copies and frees -/

theorem copyTo_of_standing (h : Records record d) {handle : Nat} {bytes destination : Bytes}
    (hstands : (handle, bytes) ∈ standing record) (hlen : bytes.length = destination.length) :
    d.copyTo handle destination = (.ok (), bytes, { d with downloads := d.downloads + 1 }) := by
  simp only [copyTo, h.find?_eq_some.mpr hstands, if_pos hlen]

theorem copyTo_of_not_standing (h : Records record d) {handle : Nat} {destination : Bytes}
    (hnone : ∀ bytes, (handle, bytes) ∈ standing record → bytes.length ≠ destination.length) :
    ∃ e, d.copyTo handle destination = (.error e, destination, d) := by
  unfold copyTo
  cases hfound : d.allocations.find? handle with
  | none => exact ⟨_, rfl⟩
  | some bytes =>
    simp only [if_neg (hnone bytes (h.find?_eq_some.mp hfound))]
    exact ⟨_, rfl⟩

theorem copyTo_eq_ok_iff (h : Records record d) {handle : Nat} {destination : Bytes} :
    (d.copyTo handle destination).1 = .ok () ↔
      ∃ bytes, (handle, bytes) ∈ standing record ∧ bytes.length = destination.length := by
  refine ⟨fun hok => ?_, fun ⟨bytes, hstands, hlen⟩ => by rw [h.copyTo_of_standing hstands hlen]⟩
  refine Classical.byContradiction fun hnone => ?_
  obtain ⟨e, he⟩ := h.copyTo_of_not_standing fun bytes hstands hlen => hnone ⟨bytes, hstands, hlen⟩
  rw [he] at hok
  cases hok

theorem free_of_not_standing (h : Records record d) {handle : Nat}
    (hnone : ∀ bytes, (handle, bytes) ∉ standing record) : d.free handle = d := by
  rw [free, Table.erase_eq_self (h.find?_eq_none.mpr hnone)]

theorem allocationCount_eq (h : Records record d) : d.allocationCount = (standing record).length := by
  rw [allocationCount, Table.size, h.allocations]

theorem bytesInUse_eq (h : Records record d) :
    d.bytesInUse = total ((standing record).map (·.2.length)) := by
  rw [bytesInUse, Table.values, h.allocations, List.map_map]
  rfl

/-! ### One request, and any number of them -/

theorem upload (h : Records record d) (bytes : Bytes) :
    Records (record ++ [⟨.upload bytes, .given (d.uploads + 1)⟩]) (d.upload bytes).2 where
  allocations := by
    rw [standing_concat rfl, ← h.allocations]
    simp only [Device.upload, Table.insert_of_none h.next_is_free]
    rfl
  handles := by
    rw [Device.handles, List.filterMap_append, ← Device.handles, h.handles]
    exact (Nat.add_comm 1 d.uploads ▸ List.range'_1_concat).symm
  downloads := by
    rw [List.countP_append, ← h.downloads]
    rfl

theorem copyTo (h : Records record d) (handle : Nat) (destination : Bytes) :
    Records (record ++ [⟨.copy handle destination,
        .copied (d.copyTo handle destination).1 (d.copyTo handle destination).2.1⟩])
      (d.copyTo handle destination).2.2 := by
  have hstanding {answer : Answer} :
      standing (record ++ [⟨.copy handle destination, answer⟩]) = standing record :=
    (standing_concat rfl).trans (List.append_nil _)
  have hhandles {answer : Answer} :
      Device.handles (record ++ [⟨.copy handle destination, answer⟩]) = Device.handles record := by
    rw [Device.handles, List.filterMap_append]
    exact List.append_nil _
  by_cases hok : ∃ bytes, (handle, bytes) ∈ standing record ∧ bytes.length = destination.length
  · obtain ⟨bytes, hstands, hlen⟩ := hok
    rw [h.copyTo_of_standing hstands hlen]
    refine ⟨hstanding ▸ h.allocations, hhandles.trans h.handles, ?_⟩
    rw [List.countP_append, ← h.downloads]
    rfl
  · obtain ⟨e, he⟩ := h.copyTo_of_not_standing fun bytes hstands hlen => hok ⟨bytes, hstands, hlen⟩
    rw [he]
    refine ⟨hstanding ▸ h.allocations, hhandles.trans h.handles, ?_⟩
    rw [List.countP_append, ← h.downloads]
    rfl

theorem free (h : Records record d) (handle : Nat) :
    Records (record ++ [⟨.free handle, .freed⟩]) (d.free handle) where
  allocations := by
    have hfrees : frees [⟨.free handle, .freed⟩] = [handle] := rfl
    have hnew : standing [⟨.free handle, .freed⟩] = [] := rfl
    rw [standing_append, hfrees, hnew, List.append_nil, ← h.allocations]
    simp only [Device.free, Table.erase, List.mem_singleton]
  handles := by
    rw [Device.handles, List.filterMap_append]
    exact (List.append_nil _).trans h.handles
  downloads := by
    rw [List.countP_append, ← h.downloads]
    rfl

/-- **One request** keeps the record and the device together. -/
theorem serve (h : Records record d) (request : Request) :
    Records (record ++ [⟨request, (d.serve request).1⟩]) (d.serve request).2 := by
  cases request with
  | upload bytes => exact h.upload bytes
  | copy handle destination => exact h.copyTo handle destination
  | free handle => exact h.free handle

/-- **Any requests** do. -/
theorem run (h : Records record d) (requests : List Request) :
    Records (record ++ (d.run requests).1) (d.run requests).2 := by
  induction requests generalizing record d with
  | nil => rwa [Device.run, List.append_nil]
  | cons request rest ih =>
    have hrest := ih (h.serve request)
    rwa [List.append_assoc, List.singleton_append] at hrest

end Records

theorem requests_run (d : Device) (requests : List Request) :
    (d.run requests).1.map (·.request) = requests := by
  induction requests generalizing d with
  | nil => rfl
  | cons request rest ih => exact congrArg (request :: ·) (ih _)

theorem uploads_run (d : Device) (requests : List Request) :
    (d.run requests).2.uploads = d.uploads + requests.countP Request.isUpload := by
  induction requests generalizing d with
  | nil => rfl
  | cons request rest ih =>
    have hfirst : (d.serve request).2.uploads = d.uploads + if request.isUpload then 1 else 0 := by
      cases request with
      | upload bytes => rfl
      | copy handle destination => exact uploads_copyTo d handle destination
      | free handle => rfl
    rw [List.countP_cons, Nat.add_comm (rest.countP _), ← Nat.add_assoc, ← hfirst]
    exact ih _

/-- **A faithful store.** Whatever has been asked of a new device, it has given out a
handle for each upload, each handle once, and none past the number of uploads, so that
words have room for the handles of fewer than `2 ^ 64` uploads. A copy succeeds just when
a destination has the length of what stands under the handle; it then brings the bytes
that were uploaded and only counts itself, and a copy that fails leaves destination and
device as they were. Freeing what does not stand changes nothing. The device tells how
many uploads and successful copies there were, and how much stands. -/
theorem faithful_run (requests : List Request) :
    let record := (({} : Device).run requests).1
    let d := (({} : Device).run requests).2
    record.map (·.request) = requests ∧
      (handles record).length = requests.countP Request.isUpload ∧ (handles record).Nodup ∧
      (∀ handle ∈ handles record, 1 ≤ handle ∧ handle ≤ requests.countP Request.isUpload) ∧
      (∀ handle destination,
        ((d.copyTo handle destination).1 = .ok () ↔
          ∃ bytes, (handle, bytes) ∈ standing record ∧ bytes.length = destination.length) ∧
        (∀ bytes, (handle, bytes) ∈ standing record → bytes.length = destination.length →
          d.copyTo handle destination = (.ok (), bytes, { d with downloads := d.downloads + 1 })) ∧
        ∀ e, (d.copyTo handle destination).1 = .error e →
          d.copyTo handle destination = (.error e, destination, d)) ∧
      (∀ handle, (∀ bytes, (handle, bytes) ∉ standing record) → d.free handle = d) ∧
      d.uploads = requests.countP Request.isUpload ∧
      d.downloads = record.countP Exchange.brought ∧
      d.allocationCount = (standing record).length ∧
      d.bytesInUse = total ((standing record).map (·.2.length)) := by
  intro record d
  have h : Records record d := records_new.run requests
  have huploads : d.uploads = requests.countP Request.isUpload :=
    (uploads_run {} requests).trans (Nat.zero_add _)
  have hlength : (handles record).length = d.uploads := by rw [h.handles, List.length_range']
  refine ⟨requests_run {} requests, hlength.trans huploads, h.nodup,
    fun handle hmem => huploads ▸ h.handle_mem.mp hmem,
    fun handle destination =>
      ⟨h.copyTo_eq_ok_iff, fun bytes => h.copyTo_of_standing, fun e => copyTo_of_error⟩,
    fun handle => h.free_of_not_standing, huploads, h.downloads, h.allocationCount_eq, h.bytesInUse_eq⟩

/-- After an allocation has been freed twice, and copied in vain. -/
theorem faithful_run_freed_twice :
    let requests : List Request :=
      [.upload [1, 2], .free 1, .upload [3], .free 1, .copy 1 [0, 0], .copy 2 [0, 0], .copy 2 [0]]
    let record := (({} : Device).run requests).1
    let d := (({} : Device).run requests).2
    handles record = [1, 2] ∧ standing record = [(2, [3])] ∧
      d.copyTo 2 [9] = (.ok (), [3], { d with downloads := 2 }) ∧
      d.copyTo 1 [9, 9] = (.error (.unknownAllocation 1), [9, 9], d) ∧
      d.free 1 = d ∧ d.uploads = 2 ∧ d.downloads = 1 ∧ d.bytesInUse = 1 := by
  intro requests record d
  obtain ⟨-, -, -, -, hcopy, hfree, huploads, hdownloads, -, hbytes⟩ := faithful_run requests
  have hstanding : standing record = [(2, [3])] := by decide
  refine ⟨by decide, hstanding, (hcopy 2 [9]).2.1 [3] (by decide) rfl, (hcopy 1 [9, 9]).2.2 _ rfl,
    hfree 1 fun bytes hmem => ?_, huploads, hdownloads, hbytes⟩
  rw [hstanding, List.mem_singleton] at hmem
  cases hmem

end Columnar.Device
