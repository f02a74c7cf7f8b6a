/-
  The memory layout, read from a linker map.

  The map's memory configuration lists a region as its name, its origin and its length.  Everything
  else in the map is noise, and so is a line whose numbers are not hexadecimal.  The last line that
  counts decides a region, even when it gives it no length; a region without length is missing.
-/
import FaultPlan.Failure
import FaultPlan.Text.Pieces

namespace FaultPlan

/-- The regions that a map has given so far. -/
structure Regions where
  flash : Option Region
  ram : Option Region
  deriving DecidableEq, Repr

namespace Regions

def get (rs : Regions) : RegionKind → Option Region
  | .flash => rs.flash
  | .ram => rs.ram

def set (rs : Regions) (kind : RegionKind) (r : Region) : Regions :=
  match kind with
  | .flash => { rs with flash := some r }
  | .ram => { rs with ram := some r }

/-- A line of the map: the name first, then origin and length in hexadecimal; further words do not
    matter. -/
def read (rs : Regions) (line : String) : Regions :=
  match Text.words line with
  | name :: origin :: length :: _ =>
    match RegionKind.ofName? name with
    | none => rs
    | some kind =>
      match Hex.parse origin, Hex.parse length with
      | some o, some l => rs.set kind ⟨o, l⟩
      | _, _ => rs
  | _ => rs

/-- The regions that the lines of the map give, each as it is given last. -/
def ofMap (map : String) : Regions := (Text.lines map).foldl read ⟨none, none⟩

end Regions

/-- Flash and RAM of the target. -/
structure Layout where
  flash : Region
  ram : Region
  deriving DecidableEq, Repr

namespace Layout

/-- The exclusive upper bound of flash. -/
def endOfFlash (l : Layout) : UInt64 := l.flash.limit

/-- A region is there when it has some length. -/
def require (kind : RegionKind) (rs : Regions) : Except Failure Region :=
  match rs.get kind with
  | some r => if r.length = 0 then .error (.missingRegion kind) else .ok r
  | none => .error (.missingRegion kind)

/-- The layout that a linker map describes.  Flash is looked for first. -/
def ofMap (map : String) : Except Failure Layout := do
  let regions := Regions.ofMap map
  let flash ← require .flash regions
  let ram ← require .ram regions
  return ⟨flash, ram⟩

example : ofMap "flash 0x08000000 0x20000 xr\nram 20000000 0x5000\nflash 1 zz\n"
    = .ok ⟨⟨0x8000000, 0x20000⟩, ⟨0x20000000, 0x5000⟩⟩ := by rfl
example : ofMap "flash 0 10\nram 0 10\nflash 0 0\nram 0 0" = .error (.missingRegion .flash) := by
  rfl

end Layout
end FaultPlan
