/-
Scripts: sessions driven by commands, each with its reply.

A command that names an object which is not there is answered with that name,
and one that is refused with its error; the script then goes on. Only a reach
past the end of a buffer ends a script.
-/
import Columnar.Session.Making
import Columnar.Session.Reading

namespace Columnar

/-- How a new vector is made. -/
inductive Making where
  | assemble (r : Recipe)
  | ofParts (kind : Kind) (rows : Nat) (data : Bytes) (validity : Option Bytes)
  | share (v : String)
  | cast (v : String) (target : Kind)
  | concat (vs : List String)
  | operate (op : Operation) (out : Kind) (l r : String)
  | operateScalar (op : Operation) (out : Kind) (l : String) (s : Scalar)

/-- Where a builder's content goes. -/
inductive Destination where
  /-- Where the configuration wants it. -/
  | configured
  | host
  | runtime (name : String)

/-- What a session can be told to do. -/
inductive Command where
  | newBuilder (b : String) (kind : Kind) (capacity : Nat) (withValidity : Bool)
  | append (b : String) (a : Addition)
  | builder (b : String)
  | closeBuilder (b : String)
  | dropBuilder (b : String)
  | build (b : String) (destination : Destination) (target : String)
  | make (m : Making) (target : String)
  | isComparison (op : Operation)
  | info (v : String)
  | isNull (v : String) (i : Nat)
  | isNullExtended (v : String) (i : Nat)
  | validityBits (v : String)
  | element (v : String) (f : Primitive) (i : Nat)
  | text (v : String) (i : Nat)
  | scalar (v : String) (i : Nat)
  | scan (v : String) (f : Primitive) (start count : Nat)
  | view (v : String)
  /-- Every row, the raw content, and what is told of the vector after that. -/
  | dump (v : String)
  /-- Gives a handle up on purpose. -/
  | close (v : String)
  /-- Lets a handle go away. -/
  | drop (v : String)
  | newRuntime (runtime : String) (plan : FaultPlan)
  | runtimeUse (runtime : String)
  | defaultRuntimeBytes
  | ledger
  | takeEvents
  | config
  | configure (c : Config)

/-- The answer to a command. -/
inductive Reply where
  | builder (b : Builder) (refused : Option ColumnError)
  | built (vector : VectorInfo) (b : Builder)
  | vector (info : VectorInfo)
  | done
  | flag (b : Bool)
  | count (n : Option Nat)
  | element (f : Primitive) (v : f.Carrier)
  | elements (f : Primitive) (vs : List (Option f.Carrier))
  | text (s : String)
  | scalar (s : Scalar)
  | view (v : View)
  | dump (values : List Scalar) (view : View) (info : VectorInfo)
  | device (d : Device)
  | ledger (l : Ledger)
  | events (es : List Event)
  | config (c : Config)
  | stopped (s : Stop)

namespace Action

/-- The builder under a name. -/
def builder (name : String) : Action Builder := do named name ((← get).builders.find? name)

/-- The number of the runtime under a name. -/
def runtime (name : String) : Action Nat := do named name ((← get).runtimeNames.find? name)

/-- What an action refuses, as a value; every other stop stays one. -/
def refusal {α : Type} (action : Action α) : Action (Except ColumnError α) := do
  try pure (.ok (← action))
  catch
    | .fault (.refused e) => pure (.error e)
    | stop => throw stop

/-- Makes a new vector and tells its number. -/
def make : Making → Action Nat
  | .assemble r => assemble r
  | .ofParts kind rows data validity => ofParts kind rows data validity
  | .share v => share v
  | .cast v target => cast v target
  | .concat vs => concat vs
  | .operate op out l r => operate op out l r
  | .operateScalar op out l s => operateScalar op out l s

/-- What is told of the vector with this number. -/
def infoOf (name : String) (id : Nat) : Action VectorInfo := do
  return (← named name ((← get).storages.find? id)).info

/-- Gives a new vector its name, after telling what it is like. -/
def settle (target : String) (id : Nat) : Action VectorInfo := do
  let info ← infoOf target id
  modify (·.bind target id)
  return info

/-- Does work on the builder under a name, and leaves the builder there as the work leaves it,
whether that has an answer or not. Only a reach out of bounds, after which nothing more is asked,
leaves the builder that was there. -/
def atBuilder {α : Type} (name : String) (work : Work α) : Action α := do
  match ← work.run (← builder name) with
  | (.ok a, b) =>
    modify (·.setBuilder name b)
    return a
  | (.error (.fault .outOfBounds), _) => throw (.fault .outOfBounds)
  | (.error stop, b) =>
    modify (·.setBuilder name b)
    throw stop

/-- Adds rows to the builder under a name. -/
def addTo (b : String) (a : Addition) : Action Reply := do
  match ← refusal (atBuilder b (Work.extend a)) with
  | .error e => return .builder (← builder b) (some e)
  | .ok () => return .builder (← builder b) none

/-- Adds rows to a builder. A missing vector is noticed before a missing builder. -/
def append (b : String) (a : Addition) : Action Reply := do
  match a with
  | .vector v => let _ ← shape v
  | .rows _ => pure ()
  addTo b a

/-- Makes a vector of the builder under a name, in some way. -/
def buildBy (work : Work Nat) (b target : String) : Action Reply := do
  match ← refusal (atBuilder b work) with
  | .error e => return .builder (← builder b) (some e)
  | .ok id =>
    let after ← builder b
    return .built (← settle target id) after

/-- Makes a vector of a builder. A missing runtime is noticed before a missing builder. -/
def buildTo (b : String) (destination : Destination) (target : String) : Action Reply := do
  match destination with
  | .configured => buildBy Work.build b target
  | .host => buildBy Work.buildOnHost b target
  | .runtime name =>
    let id ← runtime name
    buildBy (Work.buildOnDevice id) b target

/-- Puts a new builder under a name. -/
def newBuilder (name : String) (kind : Kind) (capacity : Nat) (withValidity : Bool) :
    Action Reply := do
  let b ← (Builder.create kind capacity withValidity).act
  modify fun s => { s with ledger := s.ledger.register }
  modify fun s => (s.dropBuilder name).setBuilder name b
  return .builder b none

/-- The reply to a command. -/
def reply : Command → Action Reply
  | .newBuilder b kind capacity withValidity => newBuilder b kind capacity withValidity
  | .append b a => append b a
  | .builder b => return .builder (← builder b) none
  | .closeBuilder b => do
    let closed := (← builder b).close
    modify (·.setBuilder b closed)
    return .builder closed none
  | .dropBuilder b => do
    let there := (← get).builders.contains b
    modify (·.dropBuilder b)
    return .flag there
  | .build b destination target => buildTo b destination target
  | .make m target => do return .vector (← settle target (← make m))
  | .isComparison op => return .flag op.isComparison
  | .info v => return .vector (← info v)
  | .isNull v i => return .flag (← isNull v i)
  | .isNullExtended v i => return .flag (← isNullExtended v i)
  | .validityBits v => return .count (← validityBits v)
  | .element v f i => return .element f (← element v f i)
  | .text v i => return .text (← text v i)
  | .scalar v i => return .scalar (← scalar v i)
  | .scan v f start count => return .elements f (← scan v f start count)
  | .view v => return .view (← view v)
  | .dump v => do
    let values ← scalars v 0 (← shape v).rows
    let view ← view v
    return .dump values view (← info v)
  | .close v => do
    let _ ← storage v
    modify (·.unbind v true)
    return .flag true
  | .drop v => do
    let there := (← get).vectors.contains v
    modify (·.unbind v false)
    return .flag there
  | .newRuntime name plan => do
    modify fun s =>
      let id := s.runtimes.size
      { s.setRuntime id { plan := plan } with runtimeNames := s.runtimeNames.insert name id }
    return .done
  | .runtimeUse name => do
    let id ← runtime name
    return .device ((← get).runtime id).device
  | .defaultRuntimeBytes => return .count (some ((← get).runtime 0).device.bytesInUse)
  | .ledger => return .ledger (← get).ledger
  | .takeEvents => modifyGet fun s => (.events s.events, { s with events := [] })
  | .config => return .config (← config)
  | .configure c =>
    modifyGet fun s =>
      match s.config with
      | some _ => (.flag false, s)
      | none => (.flag true, { s with config := some c })

end Action

namespace Session

/-- Carries a command out. -/
def step (s : Session) (c : Command) : Reply × Session :=
  match (Action.reply c).run s with
  | (.ok reply, s) => (reply, s)
  | (.error stop, s) => (.stopped stop, s)

/-- Carries commands out, in order, up to the first that ends the script. -/
def run (s : Session) : List Command → List Reply × Session
  | [] => ([], s)
  | c :: rest =>
    match s.step c with
    | (.stopped (.fault .outOfBounds), s) => ([.stopped (.fault .outOfBounds)], s)
    | (reply, s) =>
      let (replies, s) := s.run rest
      (reply :: replies, s)

end Session

end Columnar
