/-
A device that keeps byte buffers under handles.

Handles are given out in order, from one, and never again. A download must
take a whole allocation, and only one that succeeds is counted.
-/
import Columnar.Error
import Columnar.Table

namespace Columnar

/-- A device: its live allocations by handle, and how often it was used. -/
structure Device where
  allocations : Table Nat Bytes := ∅
  uploads : Nat := 0
  downloads : Nat := 0
  deriving Repr

namespace Device

instance : Inhabited Device := ⟨{}⟩

/-- Keeps the bytes under a new handle. -/
def upload (d : Device) (bytes : Bytes) : Nat × Device :=
  let handle := d.uploads + 1
  (handle, { d with allocations := d.allocations.insert handle bytes, uploads := handle })

/-- Copies an allocation over a destination, which must have its length. A copy that
fails leaves the destination as it was. -/
def copyTo (d : Device) (handle : Nat) (destination : Bytes) : Except DeviceError Unit × Bytes × Device :=
  match d.allocations.find? handle with
  | none => (.error (.unknownAllocation handle), destination, d)
  | some bytes =>
    if bytes.length = destination.length then
      (.ok (), bytes, { d with downloads := d.downloads + 1 })
    else (.error (.sizeMismatch bytes.length destination.length), destination, d)

/-- Copies an allocation of `length` bytes back, over as many zeros. -/
def download (d : Device) (handle length : Nat) : Except DeviceError (Bytes × Device) :=
  match d.copyTo handle (List.replicate length 0) with
  | (.error e, _) => .error e
  | (.ok (), bytes, d) => .ok (bytes, d)

theorem download_eq (d : Device) (handle length : Nat) :
    d.download handle length =
      match d.allocations.find? handle with
      | none => .error (.unknownAllocation handle)
      | some bytes =>
        if bytes.length = length then .ok (bytes, { d with downloads := d.downloads + 1 })
        else .error (.sizeMismatch bytes.length length) := by
  unfold download copyTo
  cases d.allocations.find? handle with
  | none => rfl
  | some bytes => by_cases h : bytes.length = length <;> simp [h]

/-- Gives an allocation back; there need not be one. -/
def free (d : Device) (handle : Nat) : Device :=
  { d with allocations := d.allocations.erase handle }

/-- The number of live allocations. -/
def allocationCount (d : Device) : Nat := d.allocations.size

/-- The total length of the live allocations. -/
def bytesInUse (d : Device) : Nat := total (d.allocations.values.map List.length)

end Device

/-- An allocation as its owner knows it. -/
structure Allocation where
  handle : Nat
  length : Nat
  deriving DecidableEq, Repr

/-- A device with the allocations that are held on it by name. -/
structure Holdings where
  device : Device := {}
  held : Table String Allocation := ∅

namespace Holdings

/-- Gives back what is held under a name; tells whether there was anything. -/
def drop (h : Holdings) (name : String) : Bool × Holdings :=
  match h.held.find? name with
  | none => (false, h)
  | some a => (true, { device := h.device.free a.handle, held := h.held.erase name })

/-- Uploads the bytes and holds them under a name; what was held there before
is given back afterwards. -/
def hold (h : Holdings) (name : String) (bytes : Bytes) : Holdings :=
  let (handle, device) := h.device.upload bytes
  let freed := ({ h with device := device } : Holdings).drop name
  { freed.2 with held := freed.2.held.insert name ⟨handle, bytes.length⟩ }

/-- Copies back what is held under a name. -/
def download? (h : Holdings) (name : String) : Option (Except DeviceError Bytes × Holdings) :=
  (h.held.find? name).map fun a =>
    match h.device.download a.handle a.length with
    | .ok (bytes, device) => (.ok bytes, { h with device := device })
    | .error e => (.error e, h)

end Holdings

end Columnar
