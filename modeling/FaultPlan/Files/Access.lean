/-
  Operations on files by path: reading, writing, removing, making directories and links.

  Each operation either answers with the changed tree or with the fault that the system reports,
  and a refused operation changes nothing.  The exceptions are `makeDirectories` and `adopt`,
  which keep the directories that they made before they were refused.
-/
import FaultPlan.Files.Walk

namespace FaultPlan
namespace FileTree

/-! ## Looking -/

/-- The directory that a path leads to. -/
def directoryAt (t : FileTree) (path : Path) : Except IoFault Place :=
  match t.followPath .find path with
  | .ok (.at place .directory) => .ok place
  | .ok (.at _ _) => .error .notDirectory
  | .ok (.vacant ..) => .error .notFound
  | .error fault => .error fault

/-- Tells whether a route leads to a directory. -/
def leadsToDirectory (t : FileTree) (r : Route) : Bool :=
  match t.follow .find r with
  | .ok (.at _ .directory) => true
  | _ => false

/-- The contents of the file that a path leads to. -/
def read (t : FileTree) (path : Path) : Except IoFault Bytes :=
  match t.followPath .find path with
  | .ok (.at _ (.file contents)) => .ok contents
  | .ok (.at _ _) => .error .isDirectory
  | .ok (.vacant ..) => .error .notFound
  | .error fault => .error fault

/-- The text in the file that a path leads to. -/
def readText (t : FileTree) (path : Path) : Except IoFault String :=
  match t.read path with
  | .ok contents =>
    match Utf8.decode? contents with
    | some text => .ok text
    | none => .error .notText
  | .error fault => .error fault

/-! ## Files and links -/

/-- The file that a path leads to holds the contents afterwards; it is made if only it is missing. -/
def write (t : FileTree) (path : Path) (contents : Bytes) : Except IoFault FileTree :=
  match t.followPath .create path with
  | .ok (.at _ .directory) => .error .isDirectory
  | .ok (.at place _) => .ok (t.put place (.file contents))
  | .ok (.vacant parent name) => .ok (t.put (parent ++ [name]) (.file contents))
  | .error fault => .error fault

/-- The file or link itself that stands at the end of a path is removed; a link is not followed. -/
def unlink (t : FileTree) (path : Path) : Except IoFault FileTree := do
  let s ← t.spot (← Route.parse path)
  if s.isRelative then .error .isDirectory
  else match ← t.look s.parent s.name with
    | none => .error .notFound
    | some .directory => .error .isDirectory
    | some _ =>
      if s.wantsDirectory then .error .notDirectory
      else .ok (t.removeLeaves fun p _ => p == s.place)

/-- A link with the given target is made at the end of a path, where nothing stands yet. -/
def makeLink (t : FileTree) (target path : Path) : Except IoFault FileTree := do
  let s ← t.spot (← Route.parse path)
  if s.isRelative then .error .alreadyExists
  else match ← t.look s.parent s.name with
    | some _ => .error .alreadyExists
    | none =>
      if s.wantsDirectory then .error .notFound
      else .ok (t.put s.place (.link target))

/-! ## Directories -/

/-- A directory is made at the end of a route, where nothing stands yet. -/
def makeDirectory (t : FileTree) (r : Route) : Except IoFault FileTree := do
  let s ← t.spot r
  if s.isRelative then .error .alreadyExists
  else match ← t.look s.parent s.name with
    | some _ => .error .alreadyExists
    | none => .ok (t.put s.place .directory)

/-- The first of the routes is made a directory; if something above it is missing, the others come
    first.  What is a directory already is left alone. -/
def makeAll : List Route → FileTree → FileTree × Except IoFault Unit
  | [], t => (t, .ok ())
  | r :: above, t =>
    match t.makeDirectory r with
    | .ok t' => (t', .ok ())
    | .error .notFound =>
      match makeAll above t with
      | (t', .error fault) => (t', .error fault)
      | (t', .ok ()) =>
        match t'.makeDirectory r with
        | .ok t'' => (t'', .ok ())
        | .error fault => (t', if t'.leadsToDirectory r then .ok () else .error fault)
    | .error fault => (t, if t.leadsToDirectory r then .ok () else .error fault)

/-- The directory at the end of a path is made, and those above it that are missing. -/
def makeDirectories (t : FileTree) (path : Path) : FileTree × Except IoFault Unit :=
  match Route.parse path with
  | .ok r => makeAll r.ancestors t
  | .error fault => (t, .error fault)

/-- The file at a path holds the contents afterwards; the directories above it that are missing are
    made first. -/
def adopt (t : FileTree) (path : Path) (contents : Bytes) : FileTree × Except IoFault Unit :=
  match t.makeDirectories (Route.parentPath path) with
  | (t', .error fault) => (t', .error fault)
  | (t', .ok ()) =>
    match t'.write path contents with
    | .ok t'' => (t'', .ok ())
    | .error fault => (t', .error fault)

end FileTree
end FaultPlan
