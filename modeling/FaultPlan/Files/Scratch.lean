/-
  Scratch directories: made for one run and removed after it with everything in them.
-/
import FaultPlan.Files.Access

namespace FaultPlan

/-- Where a scratch directory is made, and what makes its name unlike others. -/
structure Scratch where
  root : Path
  token : String
  deriving DecidableEq, Repr

namespace Scratch

/-- The name of the directory. -/
def name (s : Scratch) : Name := Path.ofText ("faultcfg-" ++ s.token)

def path (s : Scratch) : Path := joinPath s.root s.name

/-- The directory is made; it must not be there yet. -/
def make (s : Scratch) (t : FileTree) : Except IoFault (Place × FileTree) := do
  let r ← Route.parse s.path
  let made ← t.makeDirectory r
  let spot ← t.spot r
  return (spot.place, made)

end Scratch
end FaultPlan
