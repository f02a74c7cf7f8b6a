/-
  Programs: what starting one does, as far as a derivation can tell.

  A program is started by its name or path with arguments, prints to two streams and ends with an
  exit code or by a signal.  Which programs there are, how they are found and what they do is left to
  a `Bench`.  It tells programs that only print from those that also write a file; the answer of
  either may depend on all the files that there are.
-/
import FaultPlan.Files.Access

namespace FaultPlan

inductive ExitStatus where
  | code (value : Int)
  | signal
  deriving DecidableEq, Repr

def ExitStatus.success : ExitStatus → Bool
  | .code value => value == 0
  | .signal => false

def ExitStatus.code? : ExitStatus → Option Int
  | .code value => some value
  | .signal => none

/-- What a program printed and how it ended. -/
structure Ending where
  stdout : Bytes
  stderr : Bytes
  status : ExitStatus
  deriving DecidableEq, Repr

/-- The programs that can be started. -/
structure Bench where
  /-- Starts a program that prints and leaves the files alone, unless it cannot be started. -/
  ask : FileTree → (program : Path) → (args : List Path) → Except IoFault Ending
  /-- Starts a program that also changes files, unless it cannot be started. -/
  copy : FileTree → (program : Path) → (args : List Path) → Except IoFault (FileTree × Ending)

/-- What the section files named by an argument list hold. -/
def sectionsNamed (t : FileTree) : List Path → List (Path × Option Bytes)
  | [] => []
  | [_] => []
  | option :: path :: rest =>
    if option = Path.ofText "--section" then
      (path, (t.read path).toOption) :: sectionsNamed t (path :: rest)
    else sectionsNamed t (path :: rest)

end FaultPlan
