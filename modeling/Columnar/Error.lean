/-
What can go wrong, and how it is told.

An error is a value of one of these types, by cause. Its text is put together
in two steps: the cause is first filed as a `Report`, which has one form for
each class of error, and the report is then worded.
-/
import Columnar.Kind
import Columnar.Size
import Columnar.Utf8

namespace Columnar

/-- What a device refuses. -/
inductive DeviceError where
  | unknownAllocation (handle : Nat)
  /-- A download must take the whole allocation. -/
  | sizeMismatch (allocated wanted : Nat)
  /-- The upload attempt of this number was scheduled to fail. -/
  | scheduledUpload (attempt : Nat)
  /-- The download attempt of this number was scheduled to fail. -/
  | scheduledDownload (attempt : Nat)
  deriving DecidableEq, Repr

/-- What an operation on columns, vectors and builders refuses. -/
inductive ColumnError where
  | indexOutOfRange (index rows : Nat)
  | capacityExceeded (requested capacity : Nat)
  /-- One kind was needed and another was given. -/
  | wrongKind (expected actual : Kind)
  /-- Only numbers and dates can be computed with. -/
  | notArithmetic (actual : Kind)
  | builderFinished
  | builderClosed
  | corruptText (fault : Utf8.Fault)
  | unsupportedCast (source target : Kind)
  | rowCountMismatch (left right : Nat)
  | notFixedWidth (kind : Kind)
  | wrongDataLength (actual expected : Nat)
  | validityTooShort (covered rows : Nat)
  | nothingToConcatenate
  /-- Text offsets have 32 bits. -/
  | textTooLong
  | device (cause : DeviceError)
  deriving DecidableEq, Repr

/-- An error by its class, with the details that class has. -/
inductive Report where
  | indexOutOfRange (index rows : Nat)
  | capacityExceeded (requested capacity : Nat)
  | typeMismatch (expected actual : String)
  | invalidState (detail : String)
  | unsupportedCast (source target : String)
  | rowCountMismatch (left right : Nat)
  | invalidArgument (detail : String)
  | device (detail : String)
  deriving DecidableEq, Repr

/-- The wording of a report. -/
def Report.message : Report → String
  | indexOutOfRange index rows => s!"index {index} out of range for column with {rows} rows"
  | capacityExceeded requested capacity =>
    s!"capacity exceeded: {requested} rows requested, capacity is {capacity}"
  | typeMismatch expected actual => s!"type mismatch: expected {expected}, found {actual}"
  | invalidState detail => s!"invalid state: {detail}"
  | unsupportedCast source target => s!"unsupported cast from {source} to {target}"
  | rowCountMismatch left right => s!"row count mismatch: {left} vs {right}"
  | invalidArgument detail => s!"invalid argument: {detail}"
  | device detail => s!"device error: {detail}"

def DeviceError.detail : DeviceError → String
  | unknownAllocation handle => s!"unknown device allocation {handle}"
  | sizeMismatch allocated wanted =>
    s!"download size mismatch: allocation has {allocated} bytes, destination {wanted}"
  | scheduledUpload attempt => s!"injected upload failure {attempt}"
  | scheduledDownload attempt => s!"injected download failure {attempt}"

/-- The report an error is filed under. -/
def ColumnError.report : ColumnError → Report
  | indexOutOfRange index rows => .indexOutOfRange index rows
  | capacityExceeded requested capacity => .capacityExceeded requested capacity
  | wrongKind expected actual => .typeMismatch expected.label actual.label
  | notArithmetic actual => .typeMismatch "numeric or date" actual.label
  | builderFinished => .invalidState "builder has already been built"
  | builderClosed => .invalidState "builder is closed"
  | corruptText fault => .invalidState s!"corrupt string data: {fault.message}"
  | unsupportedCast source target => .unsupportedCast source.label target.label
  | rowCountMismatch left right => .rowCountMismatch left right
  | notFixedWidth kind => .invalidArgument s!"{kind.label} is not fixed width"
  | wrongDataLength actual expected =>
    .invalidArgument s!"data buffer has {actual} bytes, expected {expected}"
  | validityTooShort covered rows =>
    .invalidArgument s!"validity buffer covers {covered} rows, expected {rows}"
  | nothingToConcatenate => .invalidArgument "concatenate needs at least one vector"
  | textTooLong => .invalidArgument s!"string data would grow past {maxTextBytes} bytes"
  | device cause => .device cause.detail

/-- Why an operation gave no answer: it was refused, or it reached past the
end of a buffer or of what can be allocated, after which nothing more can be
asked. -/
inductive Fault where
  | refused (error : ColumnError)
  | outOfBounds
  deriving DecidableEq, Repr

/-- The answer of an operation, or why there is none. -/
abbrev Outcome := Except Fault

/-- Refuses with an error. -/
def refuse {α : Type} (error : ColumnError) : Outcome α := .error (.refused error)

/-- Reads what may lie past the end of a buffer. -/
def Outcome.ofOption {α : Type} : Option α → Outcome α
  | some a => .ok a
  | none => .error .outOfBounds

end Columnar
