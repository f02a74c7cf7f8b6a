/-
  Shelves: benches of which all programs are known.

  A shelf has programs under bare names, as a search path has.  A program is found by its name; a name
  with a slash is a path into the file tree, which holds no programs.  It is started with arguments
  that hold no NUL byte and are not too long.  A `Copier` is a program that copies the bytes of a
  section into a file; for some sections it may end in a way of its own, before or after it wrote the
  file.
-/
import FaultPlan.Bench.Program
import FaultPlan.Text.Pieces

namespace FaultPlan

/-- Running a program with arguments changes the files and ends. -/
abbrev Program := List Path → FileTree → FileTree × Ending

/-- A program that only prints, by what its arguments are. -/
def Program.printer (reply : List Path → Ending) : Program := fun args t => (t, reply args)

/-- The programs on a search path. -/
abbrev Shelf := Name → Option Program

namespace Shelf

/-- The program that a name or path leads to, given the files. -/
def find (shelf : Shelf) (t : FileTree) (program : Path) : Except IoFault Program :=
  if program.contains slash then
    match t.followPath .find program with
    | .ok (.at _ _) => .error .permissionDenied
    | .ok (.vacant ..) => .error .notFound
    | .error fault => .error fault
  else if program = Route.here ∨ program = Route.up then .error .permissionDenied
  else if !Route.nameFits program then .error .nameTooLong
  else match shelf program with
    | some p => .ok p
    | none => .error .notFound

/-- Tells whether the system takes an argument of that many bytes. -/
def argumentFits (arg : Path) : Bool := arg.length ≤ 131071

/-- The program that a name or path starts with the arguments. -/
def start (shelf : Shelf) (t : FileTree) (program : Path) (args : List Path) :
    Except IoFault Program :=
  if (program :: args).any Route.hasNul then .error .nulInArgument
  else match shelf.find t program with
    | .error fault => .error fault
    | .ok p => if args.all argumentFits then .ok p else .error .argumentTooLong

/-- The bench with the programs of the shelf. -/
def bench (shelf : Shelf) : Bench where
  ask t program args := (shelf.start t program args).map fun p => (p args t).2
  copy t program args := (shelf.start t program args).map fun p => p args t

end Shelf

/-! ## Copiers -/

/-- How a copier ends on a section that it does not simply copy. -/
structure CopyFault where
  ending : Ending
  /-- The file is written before, if it can be. -/
  writesFirst : Bool

structure Copier where
  /-- The bytes of a section. -/
  image : String → Bytes
  fault : String → Option CopyFault
  /-- How the copier ends when it cannot write the file. -/
  unwritable : Ending

/-- The argument by which a copier is told the section. -/
def sectionOption : String := "--only-section="

namespace Copier

/-- The section that the arguments name. -/
def sectionIn (args : List Path) : String :=
  (args.findSome? fun arg => (Path.text? arg).bind (Text.dropHead? sectionOption)).getD ""

/-- One run: the last argument is the file to write. -/
def run (c : Copier) : Program := fun args t =>
  let name := sectionIn args
  let copy (ending : Ending) : FileTree × Ending :=
    match t.write (args.getLast?.getD []) (c.image name) with
    | .ok t' => (t', ending)
    | .error _ => (t, c.unwritable)
  match c.fault name with
  | none => copy ⟨[], [], .code 0⟩
  | some fault => if fault.writesFirst then copy fault.ending else (t, fault.ending)

end Copier
end FaultPlan
