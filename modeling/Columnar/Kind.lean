/-
The element kinds of a column, and the machine forms behind them.

A kind says what a column's elements are; the set is closed. Every kind but
`string` has one fixed-width form, its `Primitive`: a signed integer of one of
four widths, a binary float of one of two precisions, or a truth value. Dates
are day counts and share the form of 32-bit integers, so several kinds may
have one form; `Kind.storage` names the kind whose form it is.
-/

namespace Columnar

/-- The widths of the signed integers. -/
inductive Width where
  | w8 | w16 | w32 | w64
  deriving DecidableEq, Repr

namespace Width

/-- The bytes an integer of this width takes. -/
def bytes : Width → Nat
  | w8 => 1
  | w16 => 2
  | w32 => 4
  | w64 => 8

/-- The bits of an integer of this width. -/
def bits (w : Width) : Nat := 8 * w.bytes

end Width

/-- The precisions of the binary floats. -/
inductive Precision where
  | single | double
  deriving DecidableEq, Repr

namespace Precision

/-- The bits of the stored fraction; the leading bit of a normal number is implicit. -/
def fractionBits : Precision → Nat
  | single => 23
  | double => 52

/-- The bits of the biased exponent. -/
def exponentBits : Precision → Nat
  | single => 8
  | double => 11

/-- Fraction, exponent and sign. -/
def bits (p : Precision) : Nat := p.fractionBits + p.exponentBits + 1

/-- The bytes a float of this precision takes. -/
def bytes : Precision → Nat
  | single => 4
  | double => 8

end Precision

/-- The machine forms in which elements are stored, read and written. -/
inductive Primitive where
  | int (w : Width)
  | float (p : Precision)
  | bool
  deriving DecidableEq, Repr

/-- The bytes one element of this form takes. -/
def Primitive.width : Primitive → Nat
  | int w => w.bytes
  | float p => p.bytes
  | bool => 1

/-- What a column's elements are. -/
inductive Kind where
  | int (w : Width)
  | float (p : Precision)
  | bool
  /-- Days since 1970-01-01. -/
  | date
  /-- Text of any length. -/
  | string
  deriving DecidableEq, Repr

/-- The kind that this form represents without further meaning. -/
def Primitive.kind : Primitive → Kind
  | int w => .int w
  | float p => .float p
  | bool => .bool

namespace Kind

/-- Every kind, in the order of the type numbers. -/
def all : List Kind :=
  [int .w8, int .w16, int .w32, int .w64, float .single, float .double, bool, date, string]

/-- The form of one element; strings have none. -/
def primitive? : Kind → Option Primitive
  | int w => some (.int w)
  | float p => some (.float p)
  | bool => some .bool
  | date => some (.int .w32)
  | string => none

/-- The bytes of one element, for a kind of fixed width. -/
def width? (k : Kind) : Option Nat := k.primitive?.map Primitive.width

/-- The bytes from one element to the next, none for text. -/
def stride (k : Kind) : Nat := k.width?.getD 0

/-- The kind whose plain form stores this one's elements. -/
def storage (k : Kind) : Kind := (k.primitive?.map Primitive.kind).getD k

def isFixedWidth (k : Kind) : Bool := k.primitive?.isSome

def isInteger : Kind → Bool
  | int _ => true
  | _ => false

def isFloating : Kind → Bool
  | float _ => true
  | _ => false

def isNumeric (k : Kind) : Bool := k.isInteger || k.isFloating

def isTemporal : Kind → Bool
  | date => true
  | _ => false

/-- The number by which devices know the kind. -/
def typeId : Kind → Nat
  | int .w8 => 1
  | int .w16 => 2
  | int .w32 => 3
  | int .w64 => 4
  | float .single => 5
  | float .double => 6
  | bool => 7
  | date => 8
  | string => 12

def ofTypeId? (id : Nat) : Option Kind := all.find? (·.typeId == id)

/-- The name under which a kind is written down and read back. -/
def name : Kind → String
  | int .w8 => "Int8"
  | int .w16 => "Int16"
  | int .w32 => "Int32"
  | int .w64 => "Int64"
  | float .single => "Float32"
  | float .double => "Float64"
  | bool => "Bool8"
  | date => "Date32"
  | string => "String"

def ofName? (s : String) : Option Kind := all.find? (·.name == s)

/-- The name messages use. -/
def label : Kind → String
  | int .w8 => "INT8"
  | int .w16 => "INT16"
  | int .w32 => "INT32"
  | int .w64 => "INT64"
  | float .single => "FLOAT32"
  | float .double => "FLOAT64"
  | bool => "BOOL8"
  | date => "DATE32"
  | string => "STRING"

end Kind

end Columnar
