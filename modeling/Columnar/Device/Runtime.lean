/-
A runtime: the way to a device, with a plan of what goes wrong on it.

Upload attempts and, apart from them, download attempts are numbered from one,
failed ones included. An attempt that the plan lets fail does not reach the
device. A download that succeeds may still be tampered with: the plan may flip
bits of the bytes it brings.
-/
import Columnar.Device

namespace Columnar

/-- Bits to flip in the result of one download attempt. -/
structure Tamper where
  download : Nat
  offset : Nat
  mask : UInt8
  deriving DecidableEq, Repr

/-- What goes wrong on a runtime, by the numbers of the attempts. -/
structure FaultPlan where
  failingUploads : List Nat := []
  failingDownloads : List Nat := []
  tampers : List Tamper := []
  deriving Repr

/-- A device behind its plan. -/
structure Runtime where
  plan : FaultPlan := {}
  device : Device := {}
  uploadAttempts : Nat := 0
  downloadAttempts : Nat := 0
  deriving Repr

namespace Runtime

instance : Inhabited Runtime := ⟨{}⟩

/-- The runtime on which nothing goes wrong, unused. -/
def faultless : Runtime := {}

def upload (r : Runtime) (bytes : Bytes) : Except DeviceError Allocation × Runtime :=
  let attempt := r.uploadAttempts + 1
  let r := { r with uploadAttempts := attempt }
  if attempt ∈ r.plan.failingUploads then (.error (.scheduledUpload attempt), r)
  else
    let (handle, device) := r.device.upload bytes
    (.ok ⟨handle, bytes.length⟩, { r with device := device })

/-- The bytes as the plan lets a download attempt bring them. -/
def FaultPlan.tamper (plan : FaultPlan) (attempt : Nat) (bytes : Bytes) : Bytes :=
  plan.tampers.foldl
    (fun bytes t => if t.download = attempt then bytes.modify t.offset (· ^^^ t.mask) else bytes)
    bytes

def download (r : Runtime) (a : Allocation) : Except DeviceError Bytes × Runtime :=
  let attempt := r.downloadAttempts + 1
  let r := { r with downloadAttempts := attempt }
  if attempt ∈ r.plan.failingDownloads then (.error (.scheduledDownload attempt), r)
  else
    match r.device.download a.handle a.length with
    | .error e => (.error e, r)
    | .ok (bytes, device) =>
      (.ok (FaultPlan.tamper r.plan attempt bytes), { r with device := device })

def free (r : Runtime) (a : Allocation) : Runtime := { r with device := r.device.free a.handle }

end Runtime

end Columnar
