/-
Sessions: vectors and builders under names, the runtimes that vectors may lie
on, and the accounts that are kept of all of them.

A vector's storage is shared by its handles and reclaimed with the last of
them. It lies on the host, on a device, or on both: data that lies on a device
is brought to the host when it is first needed and stays there from then on. A
transfer that fails changes nothing, and the next access tries again.

An action reads and changes a session. It may stop without an answer, and what
it did up to then stays done.
-/
import Columnar.Builder
import Columnar.Config
import Columnar.Device.Transfer
import Columnar.Event
import Columnar.Ledger

namespace Columnar

/-- Allocations on a runtime, in the order of the buffers. -/
structure DeviceCopy where
  runtime : Nat
  allocations : List Allocation
  deriving Repr

/-- Where a vector's data lies. -/
inductive Place where
  | host (p : Payload)
  | device (d : DeviceCopy)
  | both (p : Payload) (d : DeviceCopy)
  deriving Repr

inductive Residency where
  | host | device | both
  deriving DecidableEq, Repr

namespace Place

def residency : Place → Residency
  | host _ => .host
  | device _ => .device
  | both _ _ => .both

/-- The copy on a device. -/
def deviceCopy? : Place → Option DeviceCopy
  | host _ => none
  | device d => some d
  | both _ d => some d

end Place

/-- The storage that handles of a vector share. -/
structure Storage where
  shape : Shape
  place : Place
  handles : Nat
  deriving Repr

/-- What is told of a vector. -/
structure VectorInfo where
  shape : Shape
  residency : Residency
  handles : Nat
  deriving Repr

def Storage.info (s : Storage) : VectorInfo := ⟨s.shape, s.place.residency, s.handles⟩

/-- The state of a session. Storage is numbered by its entry in the ledger,
and runtimes in the order they were made; number zero is the default one. -/
structure Session where
  /-- Not there until it is installed or first read. -/
  config : Option Config := none
  ledger : Ledger := {}
  /-- Oldest first, since they were last taken. -/
  events : List Event := []
  runtimes : Table Nat Runtime := (∅ : Table Nat Runtime).insert 0 .faultless
  storages : Table Nat Storage := ∅
  builders : Table String Builder := ∅
  vectors : Table String Nat := ∅
  runtimeNames : Table String Nat := ∅

/-- Why an action stopped. -/
inductive Stop where
  | fault (f : Fault)
  | noSuchObject (name : String)
  deriving DecidableEq, Repr

/-- An action on a session. -/
abbrev Action := ExceptT Stop (StateM Session)

/-- An outcome as an action that leaves the session be. -/
def Outcome.act {α : Type} : Outcome α → Action α
  | .ok a => pure a
  | .error f => throw (.fault f)

/-- What is under a name, or a stop for want of it. -/
def named {α : Type} (name : String) : Option α → Action α
  | some a => pure a
  | none => throw (.noSuchObject name)

namespace Session

/-- A session in which the default configuration has been read. -/
def configured : Session := { config := some {} }

/-- The runtime of a number. -/
def runtime (s : Session) (id : Nat) : Runtime := (s.runtimes.find? id).getD .faultless

def setRuntime (s : Session) (id : Nat) (r : Runtime) : Session :=
  { s with runtimes := s.runtimes.insert id r }

def setStorage (s : Session) (id : Nat) (st : Storage) : Session :=
  { s with storages := s.storages.insert id st }

def log (s : Session) (e : Event) : Session := { s with events := s.events ++ [e] }

/-- The configuration; reading it for the first time settles it. -/
def settledConfig (s : Session) : Config := s.config.getD {}

/-- Strikes an owner out of the ledger. An owner that was not given up is
logged, if that is configured. -/
def reclaim (s : Session) (holder : Holder) (released : Bool) : Session :=
  let s := { s with ledger := s.ledger.reclaim released }
  if released then s
  else
    let s := { s with config := some s.settledConfig }
    if s.settledConfig.warnOnLeak then s.log (.reclaimedUnreleased holder) else s

/-- Gives back what a place holds on a device. -/
def freePlace (s : Session) (p : Place) : Session :=
  match p.deviceCopy? with
  | none => s
  | some d => s.setRuntime d.runtime ((s.runtime d.runtime).freeAll d.allocations)

/-- One handle less of a storage, given up on purpose or not; with the last one
the storage is reclaimed. -/
def releaseHandle (s : Session) (id : Nat) (released : Bool) : Session :=
  match s.storages.find? id with
  | none => s
  | some st =>
    if st.handles ≤ 1 then
      let s := { s with storages := s.storages.erase id }
      (s.freePlace st.place).reclaim .vector released
    else s.setStorage id { st with handles := st.handles - 1 }

/-- Drops the handle under a name. -/
def unbind (s : Session) (name : String) (released : Bool) : Session :=
  match s.vectors.find? name with
  | none => s
  | some id => { s with vectors := s.vectors.erase name }.releaseHandle id released

/-- Binds a name to a storage; a handle that was there is dropped. -/
def bind (s : Session) (name : String) (id : Nat) : Session :=
  let s := s.unbind name false
  { s with vectors := s.vectors.insert name id }

/-- Enters a new storage with one handle. -/
def addStorage (s : Session) (shape : Shape) (place : Place) : Nat × Session :=
  let ledger := s.ledger.register
  let id := ledger.registered
  (id, { s with ledger := ledger }.setStorage id ⟨shape, place, 1⟩)

/-- Drops the builder under a name, which counts as given up unless it is open. -/
def dropBuilder (s : Session) (name : String) : Session :=
  match s.builders.find? name with
  | none => s
  | some b =>
    { s with builders := s.builders.erase name }.reclaim .builder b.givenUp

def setBuilder (s : Session) (name : String) (b : Builder) : Session :=
  { s with builders := s.builders.insert name b }

/-- The storage under a name, with its number. -/
def storage? (s : Session) (name : String) : Option (Nat × Storage) := do
  let id ← s.vectors.find? name
  return (id, ← s.storages.find? id)

end Session

namespace Action

/-- The number of the storage under a name, and the storage. -/
def storage (name : String) : Action (Nat × Storage) := do
  named name ((← get).storage? name)

/-- What is known of a vector without its data. -/
def shape (name : String) : Action Shape := return (← storage name).2.shape

/-- Brings the data of a storage from a device. -/
def fetch (id : Nat) (st : Storage) (d : DeviceCopy) : Action Payload := do
  let (fetched, runtime) := ((← get).runtime d.runtime).downloadAll d.allocations
  modify (·.setRuntime d.runtime runtime)
  match fetched with
  | .error e => throw (.fault (.refused (.device e)))
  | .ok buffers =>
    let p := Payload.ofBuffers st.shape buffers
    modify (·.setStorage id { st with place := .both p d })
    return p

/-- The data of a vector, brought to the host if it is not there yet. -/
def materialize (name : String) : Action Payload := do
  let (id, st) ← storage name
  match st.place with
  | .host p => return p
  | .both p _ => return p
  | .device d =>
    modify (·.log (.materializing st.shape.rows))
    fetch id st d

/-- Sends buffers to a runtime; tells what became of it. -/
def send (runtime : Nat) (buffers : List Bytes) : Action (Except DeviceError (List Allocation)) := do
  let (sent, r) := ((← get).runtime runtime).uploadAll buffers
  modify (·.setRuntime runtime r)
  return sent

/-- Enters a new vector. -/
def addStorage (shape : Shape) (place : Place) : Action Nat :=
  modifyGet (·.addStorage shape place)

/-- Enters a column as a new vector on the host. -/
def addColumn (c : Column) : Action Nat := addStorage c.shape (.host c.payload)

/-- The configuration, settled from now on. -/
def config : Action Config :=
  modifyGet fun s => (s.settledConfig, { s with config := some s.settledConfig })

end Action

end Columnar
