/-
Making vectors in a session: building them, and deriving them from others.

What is derived lies on the host. A new vector gets its name only once it is
made, so an attempt that is refused leaves every name as it was; data that was
brought to the host for it stays there.
-/
import Columnar.Column.Cast
import Columnar.Column.Concat
import Columnar.Session

namespace Columnar

/-- Rows to add to a builder. -/
inductive Addition where
  | rows (r : Rows)
  /-- The rows of the vector under a name. -/
  | vector (name : String)

/-- A column to build from nothing. -/
structure Recipe where
  kind : Kind
  capacity : Nat
  additions : List Addition

namespace Recipe

/-- A column of one addition. -/
def single (kind : Kind) (count : Nat) (r : Rows) : Recipe := ⟨kind, count, [.rows r]⟩

def ofValues (f : Primitive) (vs : List f.Carrier) : Recipe :=
  single f.kind vs.length (.values f vs)

def ofOptions (f : Primitive) (vs : List (Option f.Carrier)) : Recipe :=
  single f.kind vs.length (.options f vs)

/-- A column of dates from day counts. -/
def ofDays (days : List (BitVec Width.w32.bits)) : Recipe :=
  single .date days.length (.values (.int .w32) days)

def ofOptionDays (days : List (Option (BitVec Width.w32.bits))) : Recipe :=
  single .date days.length (.options (.int .w32) days)

def ofTexts (ss : List String) : Recipe :=
  ⟨.string, ss.length, ss.map fun s => .rows (.text s)⟩

def ofOptionTexts (ss : List (Option String)) : Recipe :=
  ⟨.string, ss.length, ss.map fun s => .rows (s.elim .null .text)⟩

end Recipe

/-- Work on one builder in a session. It may stop without an answer, and what it did to the
builder and to the session up to then stays done. -/
abbrev Work := ExceptT Stop (StateT Builder (StateM Session))

namespace Work

/-- An action on the session, which leaves the builder be. -/
def ofAction {α : Type} (x : Action α) : Work α :=
  ExceptT.mk fun b s =>
    match x.run s with
    | (answer, s) => ((answer, b), s)

/-- An edit of the builder, which leaves the session be. -/
def ofEdit {α : Type} (e : Edit Builder α) : Work α :=
  ExceptT.mk fun b s =>
    match e.run b with
    | (.ok a, b) => ((.ok a, b), s)
    | (.error fault, b) => ((.error (.fault fault), b), s)

instance : MonadLift Action Work := ⟨ofAction⟩

instance : MonadLift (Edit Builder) Work := ⟨ofEdit⟩

/-- Adds rows. -/
def extend : Addition → Work Unit
  | .rows r => Builder.addRows r
  | .vector v => do
    let source ← Action.shape v
    Edit.check fun b : Builder => b.requireColumn source
    Builder.writeColumn source (← Action.materialize v)

/-- Adds the rows of all additions. -/
def extendAll : List Addition → Work Unit
  | [] => return
  | a :: rest => do
    extend a
    extendAll rest

/-- Makes a vector on the host of what the builder holds. -/
def buildOnHost : Work Nat := do
  Edit.check Builder.requireOpen
  let content ← Builder.takeContent
  Builder.finalize
  let b ← get
  (modify (·.log (.builtOnHost b.kind b.rows b.nulls)) : Action Unit)
  Action.addColumn ⟨b.kind, b.rows, b.nulls, content.payload⟩

/-- Makes a vector on a runtime of what the builder holds, which is put back where it cannot be
sent there. -/
def buildOnDevice (runtime : Nat) : Work Nat := do
  Edit.check Builder.requireOpen
  let content ← Builder.takeContent
  match ← Action.send runtime content.payload.buffers with
  | .error e =>
    Builder.putBack content
    throw (.fault (.refused (.device e)))
  | .ok allocations =>
    Builder.finalize
    let b ← get
    (modify (·.log (.builtOnDevice b.kind b.rows b.nulls)) : Action Unit)
    Action.addStorage ⟨b.kind, b.rows, b.nulls, content.validity.isSome⟩
      (.device ⟨runtime, allocations⟩)

/-- Makes a vector where the configuration wants it. -/
def build : Work Nat := do
  if (← Action.config).uploadOnBuild then buildOnDevice 0 else buildOnHost

end Work

namespace Action

/-- Makes a vector by a recipe, with a builder of its own. This is closed if the recipe fails, and
goes away in the end. -/
def assemble (r : Recipe) : Action Nat := do
  let b ← (Builder.create r.kind r.capacity false).act
  modify fun s => { s with ledger := s.ledger.register }
  let work : Work Nat := do
    Work.extendAll r.additions
    Work.build
  let (answer, b) ← work.run b
  match answer with
  | .ok id =>
    modify (·.reclaim .builder b.givenUp)
    return id
  | .error stop =>
    modify (·.reclaim .builder b.close.givenUp)
    throw stop

/-- Makes a vector of raw parts. -/
def ofParts (kind : Kind) (rows : Nat) (data : Bytes) (validity : Option Bytes) : Action Nat := do
  addColumn (← (Column.ofParts kind rows data validity).act)

/-- Another handle of a vector. -/
def share (v : String) : Action Nat := do
  let (id, st) ← storage v
  modify (·.setStorage id { st with handles := st.handles + 1 })
  return id

/-- Makes a vector of another cast to a kind. -/
def cast (v : String) (target : Kind) : Action Nat := do
  let source ← shape v
  let rule ← (source.kind.requireCast target).act
  let payload ← materialize v
  modify (·.log (.casting source.kind target rule source.rows))
  if rule ≠ .identity then (Elements.requireStorage target source.rows).act
  addColumn (← ((source.column payload).cast target).act)

/-- Takes over vectors into a concatenation. -/
def takeAll (c : Concatenation) : List String → Action Concatenation
  | [] => return c
  | v :: rest => do
    let part ← shape v
    let taken ← (c.take part.rows (← materialize v)).act
    takeAll taken rest

/-- Makes a vector of the rows of others, one after the other. -/
def concat (vs : List String) : Action Nat := do
  let shapes ← vs.mapM shape
  let kind ← (Concatenation.requireKind shapes).act
  let whole := Concatenation.shape kind shapes
  let taken ← takeAll (← (Concatenation.start whole).act) vs
  modify (·.log (.concatenated kind shapes.length whole.rows whole.nulls))
  addColumn (whole.column taken.payload)

/-- Makes a vector of the results of an operation on two others. The right one
is brought to the host first. -/
def operate (op : Operation) (out : Kind) (l r : String) : Action Nat := do
  let left ← shape l
  let right ← shape r
  (op.requireColumns out left right).act
  let rightPayload ← materialize r
  let leftPayload ← materialize l
  modify (·.log (.evaluating op left.kind out left.rows))
  addColumn (← (Column.operate op out (left.column leftPayload) (right.column rightPayload)).act)

/-- Makes a vector of the results of an operation on another and a scalar. -/
def operateScalar (op : Operation) (out : Kind) (l : String) (right : Scalar) : Action Nat := do
  let left ← shape l
  (op.requireScalar out left right).act
  let payload ← materialize l
  modify (·.log (.evaluating op left.kind out left.rows))
  addColumn (← (Column.operateScalar op out (left.column payload) right).act)

end Action

end Columnar
