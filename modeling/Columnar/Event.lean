/-
The log: what a session tells about its work.

An event names what happened; its level, its message and its fields follow
from that.
-/
import Columnar.Column.Operation
import Columnar.Kind.Cast

namespace Columnar

/-- How much an event matters. -/
inductive Level where
  | warn | debug | trace
  deriving DecidableEq, Repr

def Level.label : Level → String
  | warn => "WARN"
  | debug => "DEBUG"
  | trace => "TRACE"

/-- What owns storage. -/
inductive Holder where
  | builder | vector
  deriving DecidableEq, Repr

def Holder.label : Holder → String
  | builder => "column_builder"
  | vector => "column_vector"

/-- What a session did. -/
inductive Event where
  | builtOnHost (kind : Kind) (rows nulls : Nat)
  | builtOnDevice (kind : Kind) (rows nulls : Nat)
  | materializing (rows : Nat)
  | casting (source target : Kind) (rule : CastRule) (rows : Nat)
  | concatenated (kind : Kind) (parts rows nulls : Nat)
  | evaluating (op : Operation) (left out : Kind) (rows : Nat)
  | reclaimedUnreleased (holder : Holder)
  deriving DecidableEq, Repr

namespace Event

def level : Event → Level
  | builtOnHost _ _ _ | builtOnDevice _ _ _ | concatenated _ _ _ _ => .debug
  | materializing _ | casting _ _ _ _ | evaluating _ _ _ _ => .trace
  | reclaimedUnreleased _ => .warn

def message : Event → String
  | builtOnHost _ _ _ => "built host column vector"
  | builtOnDevice _ _ _ => "built device column vector"
  | materializing _ => "materializing on host"
  | casting _ _ _ _ => "casting column"
  | concatenated _ _ _ _ => "concatenated column vectors"
  | evaluating _ _ _ _ => "evaluating binary op"
  | reclaimedUnreleased _ => "storage reclaimed without explicit close"

/-- The details of an event, by name. -/
def fields : Event → List (String × String)
  | builtOnHost kind rows nulls | builtOnDevice kind rows nulls =>
    [("dtype", kind.label), ("rows", toString rows), ("nulls", toString nulls)]
  | materializing rows => [("rows", toString rows)]
  | casting source target rule rows =>
    [("from", source.label), ("to", target.label), ("rule", rule.name), ("rows", toString rows)]
  | concatenated kind parts rows nulls =>
    [("dtype", kind.label), ("parts", toString parts), ("rows", toString rows),
      ("nulls", toString nulls)]
  | evaluating op left out rows =>
    [("op", op.name), ("lhs", left.label), ("out", out.label), ("rows", toString rows)]
  | reclaimedUnreleased holder => [("kind", holder.label)]

end Event

end Columnar
