/-
  Routes: paths cut into the names they lead through.

  Slashes separate names and repeated slashes count once.  A slash at the end of the path asks for a
  directory; it is kept as an empty last name, which stands for "here" like `.` does.  Routes also
  have ancestors, the directories that a path asks to exist: for these `.` does not count, unless
  the path begins with it.

  The system takes neither a path with a NUL byte nor one of more than 4095 bytes; `Route.parse`
  reads only what it takes.  A name of more than 255 bytes may stand in a path, but no directory
  holds it.
-/
import FaultPlan.Files.Fault
import FaultPlan.Files.Path
import FaultPlan.Text.Pieces

namespace FaultPlan

/-- The byte between the names of a path. -/
def slash : UInt8 := 0x2F

/-- The path of a file below a directory.  The empty path stands for the current directory, and a
    slash that ends the directory is not doubled. -/
def joinPath (dir file : Path) : Path :=
  match dir.getLast? with
  | none => file
  | some last => if last = slash then dir ++ file else dir ++ slash :: file

structure Route where
  /-- Begins at the root, not at the current directory. -/
  absolute : Bool
  /-- The names in order; an empty one stands last, if at all. -/
  names : List Name
  deriving DecidableEq, Repr

namespace Route

/-- The name of a directory in itself. -/
def here : Name := [0x2E]

/-- The name of the directory above a directory. -/
def up : Name := [0x2E, 0x2E]

/-- The names that stand between the slashes of a path. -/
def steps (path : Path) : List Name := (Text.pieces (· == slash) path).filter (! ·.isEmpty)

/-- The route that a path spells.  The empty path and a lone slash have no names. -/
def ofPath (path : Path) : Route :=
  ⟨path.head? == some slash,
    if path.getLast? == some slash && !(steps path).isEmpty then steps path ++ [[]] else steps path⟩

/-! ## Limits -/

/-- Tells whether the system takes a path of that many bytes. -/
def pathFits (path : Path) : Bool := path.length ≤ 4095

/-- Tells whether a directory may hold the name. -/
def nameFits (name : Name) : Bool := name.length ≤ 255

/-- Tells whether there is a NUL among the bytes. -/
def hasNul (bytes : Bytes) : Bool := bytes.contains 0

/-- The name is one that an entry of a directory can have. -/
def IsName (name : Name) : Prop :=
  name ≠ [] ∧ slash ∉ name ∧ hasNul name = false ∧ nameFits name = true

instance (name : Name) : Decidable (IsName name) :=
  inferInstanceAs (Decidable (name ≠ [] ∧ slash ∉ name ∧ hasNul name = false ∧ _))

/-- The route of a path that the system takes. -/
def parse (path : Path) : Except IoFault Route :=
  if hasNul path then .error .nulInPath
  else if pathFits path then .ok (ofPath path)
  else .error .nameTooLong

/-! ## Ancestors -/

/-- Names that stand for the directory in which they are met. -/
def isHere (name : Name) : Bool := name == [] || name == here

/-- The names that count for the ancestors of a path, and by which two paths are compared. -/
def components (r : Route) : List Name :=
  match r.absolute, r.names with
  | false, [0x2E] :: rest => here :: rest.filter (! isHere ·)
  | _, names => names.filter (! isHere ·)

/-- The part of a path that leads to the directory of its last component.  It is empty if nothing is
    above that component. -/
def parentPath (path : Path) : Path :=
  let back := (Text.pieces (· == slash) path).reverse.dropWhile isHere
  [slash].intercalate (back.tail.dropWhile isHere).reverse

/-- The non-empty beginnings of a list given in reverse, longest first. -/
def beginnings {α : Type} : List α → List (List α)
  | [] => []
  | x :: xs => (x :: xs).reverse :: beginnings xs

/-- The path itself and then, longest first, the directories above it that it mentions. -/
def ancestors (r : Route) : List Route :=
  match r.components.reverse with
  | [] => []
  | _ :: above => r :: (beginnings above).map (⟨r.absolute, ·⟩)

example : here = ("." : Path) ∧ up = (".." : Path) ∧ [slash] = ("/" : Path) := by decide
example : parse "a\x00/b" = .error .nulInPath := rfl
example : ofPath "/a//b/" = ⟨true, ["a", "b", ""]⟩ := by decide
example : ofPath "../x" = ⟨false, ["..", "x"]⟩ ∧ ofPath "/" = ⟨true, []⟩ := by decide
example : (ofPath "./a/./b/").ancestors.map (·.names)
    = ([[".", "a", ".", "b", ""], [".", "a"], ["."]] : List (List Name)) := by decide
example : parentPath "/a//b/./c/" = "/a//b" := by decide
example : parentPath "a/../b" = "a/.." ∧ parentPath "/a" = "" ∧ parentPath "a" = "" := by decide

end Route
end FaultPlan
