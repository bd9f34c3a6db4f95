/-
Configuration: choices that hold for a whole session.
-/

namespace Columnar

/-- The choices of a session. -/
structure Config where
  /-- Whether storage that goes away without being given up is logged. -/
  warnOnLeak : Bool := true
  /-- Whether finished columns go to the default runtime or stay on the host. -/
  uploadOnBuild : Bool := true
  deriving DecidableEq, Repr

end Columnar
