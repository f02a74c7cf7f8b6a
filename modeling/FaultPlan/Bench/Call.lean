/-
  Calls: the starts of programs, as they are logged.
-/
import FaultPlan.Files.Path

namespace FaultPlan

/-- One start of a program; an engine's call also tells what its section files held. -/
structure Call where
  tool : Path
  args : List Path
  sections : Option (List (Path × Option Bytes))
  deriving DecidableEq, Repr

end FaultPlan
