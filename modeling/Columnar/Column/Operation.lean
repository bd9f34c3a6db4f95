/-
Row-by-row arithmetic and comparison.

Sums, differences, products, quotients and remainders first put both operands
into the form of the output. Integers are then computed in 64-bit words that wrap,
whatever the form: quotients go toward zero, remainders have the sign of the
dividend, and a zero divisor makes the row null. Everything else, true quotients,
whole quotients and powers included, is computed in doubles. The result is put into
the form of the output. The reversed operations swap their operands.

Comparisons take the operands as they are: integers compare exactly, and with a
float on either side both compare as doubles, where a not-a-number is unequal
to everything and has no order. The result is a truth value.

A row is null if either operand is. The result has a validity bitmap if an
operand has one or if any row is null.
-/
import Columnar.Binary.Arithmetic
import Columnar.Column

namespace Columnar

/-- The operations on two operands. -/
inductive Operation where
  | add | sub | rsub | mul | div | rdiv | trueDiv | rtrueDiv | floorDiv | rfloorDiv
  | mod | rmod | pow | rpow
  | equal | notEqual | less | greater | lessEqual | greaterEqual
  deriving DecidableEq, Repr

namespace Operation

/-- Every operation. -/
def all : List Operation :=
  [add, sub, rsub, mul, div, rdiv, trueDiv, rtrueDiv, floorDiv, rfloorDiv, mod, rmod, pow, rpow,
    equal, notEqual, less, greater, lessEqual, greaterEqual]

/-- The name under which an operation is written down and read back. -/
def name : Operation → String
  | add => "Add"
  | sub => "Sub"
  | rsub => "RSub"
  | mul => "Mul"
  | div => "Div"
  | rdiv => "RDiv"
  | trueDiv => "TrueDiv"
  | rtrueDiv => "RTrueDiv"
  | floorDiv => "FloorDiv"
  | rfloorDiv => "RFloorDiv"
  | mod => "Mod"
  | rmod => "RMod"
  | pow => "Pow"
  | rpow => "RPow"
  | equal => "Equal"
  | notEqual => "NotEqual"
  | less => "Less"
  | greater => "Greater"
  | lessEqual => "LessEqual"
  | greaterEqual => "GreaterEqual"

def ofName? (s : String) : Option Operation := all.find? (·.name == s)

def isComparison : Operation → Bool
  | equal | notEqual | less | greater | lessEqual | greaterEqual => true
  | _ => false

/-- The operation that a reversed one is with its operands swapped. -/
def unreversed? : Operation → Option Operation
  | rsub => some sub
  | rdiv => some div
  | rtrueDiv => some trueDiv
  | rfloorDiv => some floorDiv
  | rmod => some mod
  | rpow => some pow
  | _ => none

/-- Whether a comparison holds of operands in this order; `none` is no order. -/
def holds (op : Operation) (order : Option Ordering) : Bool :=
  match op with
  | equal => order == some .eq
  | notEqual => order != some .eq
  | less => order == some .lt
  | greater => order == some .gt
  | lessEqual => order == some .lt || order == some .eq
  | greaterEqual => order == some .gt || order == some .eq
  | _ => false

end Operation

namespace Number

/-- The order of two numbers. -/
def compare : Number → Number → Option Ordering
  | int x, int y => some (Ord.compare x y)
  | x, y => Binary.compare x.toDouble y.toDouble

/-- Arithmetic on 64-bit words; there is no quotient and no remainder by zero. -/
def wordResult (op : Operation) (x y : BitVec 64) : Option (BitVec 64) :=
  match op with
  | .add => some (x + y)
  | .sub => some (x - y)
  | .mul => some (x * y)
  | .div => if y = 0 then none else some (x.sdiv y)
  | .mod => if y = 0 then none else some (x.srem y)
  | _ => none

/-- Arithmetic on integers that a signed word holds. -/
def integerResult (op : Operation) (x y : Int) : Option Int :=
  (wordResult op (BitVec.ofInt 64 x) (BitVec.ofInt 64 y)).map BitVec.toInt

/-- Arithmetic on doubles. -/
def doubleResult (op : Operation) (x y : Binary .double) : Binary .double :=
  match op with
  | .add => x.add y
  | .sub => x.sub y
  | .mul => x.mul y
  | .div => x.div y
  | _ => x.rem y

end Number

namespace Operation

/-- The result of an operation that is not reversed, for an output of this form. -/
def applyForward (op : Operation) (out : Primitive) (a b : Number) : Option Number :=
  if op.isComparison then some (.int (cond (op.holds (Number.compare a b)) 1 0))
  else
    match op with
    | .trueDiv => some (.float (a.toDouble.div b.toDouble))
    | .floorDiv => some (.float (a.toDouble.div b.toDouble).floor)
    | .pow => some (.float (a.toDouble.pow b.toDouble))
    | _ =>
      match a.coerce out, b.coerce out with
      | .int x, .int y => (Number.integerResult op x y).map .int
      | x, y => some (.float (Number.doubleResult op x.toDouble y.toDouble))

/-- The result of an operation for an output of this form; `none` is null. -/
def apply (op : Operation) (out : Primitive) (a b : Number) : Option Number :=
  match op.unreversed? with
  | some forward => forward.applyForward out b a
  | none => op.applyForward out a b

/-- Refuses a kind that is neither a number nor a date. -/
def requireArithmetic (kind : Kind) : Outcome Unit :=
  if kind.isNumeric || kind.isTemporal then .ok () else refuse (.notArithmetic kind)

/-- Refuses an output kind that the operation cannot have. -/
def requireOutput (op : Operation) (out : Kind) : Outcome Unit :=
  if op.isComparison then
    if out = .bool then .ok () else refuse (.wrongKind .bool out)
  else requireArithmetic out

/-- Checks of an operation on two columns, before either is looked into. -/
def requireColumns (op : Operation) (out : Kind) (left right : Shape) : Outcome Unit := do
  requireArithmetic left.kind
  requireArithmetic right.kind
  op.requireOutput out
  if left.rows ≠ right.rows then refuse (.rowCountMismatch left.rows right.rows)

/-- Checks of an operation on a column and a scalar. -/
def requireScalar (op : Operation) (out : Kind) (left : Shape) (right : Scalar) :
    Outcome Unit := do
  requireArithmetic left.kind
  op.requireOutput out
  match right.kind? with
  | some kind => requireArithmetic kind
  | none => return ()

end Operation

/-- One operand of an operation: its value at every row, `none` where it is
null, and whether it can be null at all. -/
structure Operand where
  values : List (Option Number)
  nullable : Bool

namespace Operand

/-- The rows of a payload as numbers. -/
def ofPayload (kind : Kind) (rows : Nat) (p : Payload) : Outcome Operand :=
  match p.elements, kind.primitive? with
  | .fixed bytes, some f =>
    if bytes.length < rows * f.width then .error .outOfBounds
    else
      let numbers := (Elements.pieces f.width rows bytes).map (Number.read f)
      .ok
        { values := numbers.mapIdx fun i n =>
            if p.validity.all (·.isSet i) then some n else none
          nullable := p.validity.isSome }
  | _, _ => refuse (.notArithmetic kind)

/-- A scalar at every row. -/
def ofScalar (rows : Nat) (s : Scalar) : Operand where
  values := List.replicate rows (Number.ofScalar? s)
  nullable := (Number.ofScalar? s).isNone

end Operand

namespace Operation

/-- The bitmap of results: a row is null where there is none. -/
def resultValidity (results : List (Option Number)) : Bitmap :=
  results.zipIdx.foldl (fun v (r, i) => if r.isNone then v.clear i else v)
    (Bitmap.allValid results.length)

/-- The bytes of results in a form; null rows are zero. -/
def resultBytes (form : Primitive) (results : List (Option Number)) : Bytes :=
  results.flatMap fun
    | some n => Number.write form n
    | none => List.replicate form.width 0

/-- The results of an operation at every row; null where an operand is. -/
def results (op : Operation) (form : Primitive) (left right : Operand) : List (Option Number) :=
  List.zipWith (fun a b => do op.apply form (← a) (← b)) left.values right.values

/-- Results as a column. -/
def resultColumn (out : Kind) (form : Primitive) (nullable : Bool) (results : List (Option Number)) :
    Column :=
  let nulls := results.countP Option.isNone
  { kind := out
    rows := results.length
    nulls := nulls
    payload :=
      { elements := .fixed (resultBytes form results)
        validity := if nullable || nulls != 0 then some (resultValidity results) else none } }

/-- The column of the results of an operation at every row. -/
def evaluate (op : Operation) (out : Kind) (left right : Operand) : Outcome Column :=
  match out.primitive? with
  | none => refuse (.notArithmetic out)
  | some form => do
    Elements.requireStorage out left.values.length
    return resultColumn out form (left.nullable || right.nullable) (op.results form left right)

end Operation

/-- The results of an operation on two columns. -/
def Column.operate (op : Operation) (out : Kind) (left right : Column) : Outcome Column := do
  op.requireColumns out left.shape right.shape
  let r ← Operand.ofPayload right.kind right.rows right.payload
  let l ← Operand.ofPayload left.kind left.rows left.payload
  op.evaluate out l r

/-- The results of an operation on a column and a scalar. -/
def Column.operateScalar (op : Operation) (out : Kind) (left : Column) (right : Scalar) :
    Outcome Column := do
  op.requireScalar out left.shape right
  let l ← Operand.ofPayload left.kind left.rows left.payload
  op.evaluate out l (Operand.ofScalar left.rows right)

end Columnar
