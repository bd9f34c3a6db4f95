/-
Columns on a device.

A payload travels as up to three buffers: the elements or the text, for strings
the offsets, and the validity bits if there are any. Buffers are sent in this
order and fetched in this order. When one cannot be sent, those sent before it
are given back, so a transfer that fails leaves no allocation behind.
-/
import Columnar.Column
import Columnar.Device.Runtime

namespace Columnar

namespace Payload

/-- Offsets as bytes. -/
def encodeOffsets (offsets : List UInt32) : Bytes :=
  offsets.flatMap fun o => LittleEndian.encode 4 o.toNat

/-- The offsets that bytes write, four bytes each. -/
def decodeOffsets (bytes : Bytes) : List UInt32 :=
  (Elements.pieces 4 (bytes.length / 4) bytes).map fun piece =>
    UInt32.ofNat (LittleEndian.decode piece)

/-- The buffers a payload travels as. -/
def buffers (p : Payload) : List Bytes :=
  p.elements.data ::
    (p.elements.offsets?.map encodeOffsets).toList ++ (p.validity.map Bitmap.bytes).toList

/-- The payload of a column of this shape from its buffers. -/
def ofBuffers (shape : Shape) (buffers : List Bytes) : Payload where
  elements :=
    if shape.kind = .string then .strings (decodeOffsets (buffers.getD 1 [])) (buffers.headD [])
    else .fixed (buffers.headD [])
  validity := if shape.hasValidity then some ⟨buffers.getLastD []⟩ else none

end Payload

namespace Runtime

/-- Sends buffers, all of them or none. -/
def uploadAll (r : Runtime) : List Bytes → Except DeviceError (List Allocation) × Runtime
  | [] => (.ok [], r)
  | bytes :: rest =>
    match r.upload bytes with
    | (.error e, r) => (.error e, r)
    | (.ok a, r) =>
      match r.uploadAll rest with
      | (.error e, r) => (.error e, r.free a)
      | (.ok as, r) => (.ok (a :: as), r)

/-- Fetches buffers, up to the first that fails. -/
def downloadAll (r : Runtime) : List Allocation → Except DeviceError (List Bytes) × Runtime
  | [] => (.ok [], r)
  | a :: rest =>
    match r.download a with
    | (.error e, r) => (.error e, r)
    | (.ok bytes, r) =>
      match r.downloadAll rest with
      | (.error e, r) => (.error e, r)
      | (.ok all, r) => (.ok (bytes :: all), r)

/-- Gives allocations back. -/
def freeAll (r : Runtime) (allocations : List Allocation) : Runtime := allocations.foldl free r

end Runtime

end Columnar
