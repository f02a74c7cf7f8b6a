/-
  Walking a file tree along a route.

  A walk goes from directory to directory; `..` leads up and stays at the root.  A link is followed
  wherever it is met, the last name included, until 40 links have been followed.  A walk to a place
  where something may be created also ends well when only the last name is missing, but it never
  creates under a name that asks for a directory.  A name that is too long is refused where it
  would be looked up.
-/
import FaultPlan.Files.Fault
import FaultPlan.Files.Route
import FaultPlan.Files.Tree

namespace FaultPlan

/-- What a walk is for. -/
inductive Intent where
  | find
  | create
  deriving DecidableEq, Repr

/-- Where a walk ends. -/
inductive Landing where
  /-- At a file or a directory. -/
  | at (place : Place) (entry : Entry)
  /-- In a directory that does not hold the last name. -/
  | vacant (parent : Place) (name : Name)
  deriving DecidableEq, Repr

/-- How far a walk comes without following a link. -/
inductive Leg where
  | landed (landing : Landing)
  /-- A link with the path `target` was met in `base`; `rest` is still to be walked after it. -/
  | detour (base : Place) (target : Path) (rest : List Name)
  | refused (fault : IoFault)
  deriving DecidableEq, Repr

/-- The number of links that one walk follows. -/
def linkBudget : Nat := 40

namespace FileTree

/-- What the directory holds under the name. -/
def look (t : FileTree) (dir : Place) (name : Name) : Except IoFault (Option Entry) :=
  if Route.nameFits name then .ok (t.get? (dir ++ [name])) else .error .nameTooLong

/-- The leg from a directory along the names up to the next link. -/
def leg (t : FileTree) (intent : Intent) : Place → List Name → Leg
  | dir, [] => .landed (.at dir .directory)
  | dir, name :: rest =>
    if Route.isHere name then t.leg intent dir rest
    else if name = Route.up then t.leg intent dir.dropLast rest
    else if intent = .create ∧ rest = [[]] then .refused .isDirectory
    else match t.look dir name with
      | .error fault => .refused fault
      | .ok none => if rest = [] then .landed (.vacant dir name) else .refused .notFound
      | .ok (some .directory) => t.leg intent (dir ++ [name]) rest
      | .ok (some (.file contents)) =>
        if rest = [] then .landed (.at (dir ++ [name]) (.file contents)) else .refused .notDirectory
      | .ok (some (.link target)) => .detour dir target rest

/-- The walk from a directory along the names, with a number of links that it may still follow. -/
def walk (t : FileTree) (intent : Intent) : Nat → Place → List Name → Except IoFault Landing
  | budget, dir, names =>
    match t.leg intent dir names with
    | .landed landing => .ok landing
    | .refused fault => .error fault
    | .detour base target rest =>
      match budget with
      | 0 => .error .linkLoop
      | budget + 1 =>
        let r := Route.ofPath target
        t.walk intent budget (if r.absolute then [] else base) (r.names ++ rest)

/-- The directory in which a route begins. -/
def startOf (t : FileTree) (r : Route) : Place := if r.absolute then [] else t.cwd

/-- The walk along a route.  A route without names is the root, or leads nowhere. -/
def follow (t : FileTree) (intent : Intent) (r : Route) : Except IoFault Landing :=
  if r.names = [] ∧ r.absolute = false then .error .notFound
  else t.walk intent linkBudget (t.startOf r) r.names

/-- The walk along a path. -/
def followPath (t : FileTree) (intent : Intent) (path : Path) : Except IoFault Landing :=
  match Route.parse path with
  | .ok r => t.follow intent r
  | .error fault => .error fault

/-- The last name of a route and the directory that should hold it. -/
structure Spot where
  parent : Place
  name : Name
  /-- The path ends in a slash. -/
  wantsDirectory : Bool
  deriving DecidableEq, Repr

def Spot.place (s : Spot) : Place := s.parent ++ [s.name]

/-- Tells whether the last name is no name of an entry but leads somewhere by itself. -/
def Spot.isRelative (s : Spot) : Bool := s.name == Route.here || s.name == Route.up

/-- The spot that a route ends at: links are followed up to the last name, which is not looked
    up.  For the root it is the name `.` in it. -/
def spot (t : FileTree) (r : Route) : Except IoFault Spot :=
  let wantsDirectory := r.names.getLast? == some []
  let names := if wantsDirectory then r.names.dropLast else r.names
  match names.getLast? with
  | none => if r.absolute then .ok ⟨[], Route.here, wantsDirectory⟩ else .error .notFound
  | some last =>
    match t.walk .find linkBudget (t.startOf r) (names.dropLast ++ [[]]) with
    | .ok (.at parent _) => .ok ⟨parent, last, wantsDirectory⟩
    | .ok (.vacant ..) => .error .notFound
    | .error fault => .error fault

end FileTree
end FaultPlan
