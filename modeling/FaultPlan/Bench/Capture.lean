/-
  Captures: what the tools told about one firmware image, kept to be told again.

  A capture holds the listings that were printed and the bytes of the sections.  The shelf of a
  capture has the tools of which something was kept; a tool that is asked for anything else fails.
  It has no engine.
-/
import FaultPlan.Bench.Shelf
import FaultPlan.Toolchain

namespace FaultPlan

structure Capture where
  attributes : Option Bytes
  symbolTable : Option Bytes
  sectionHeaders : Option Bytes
  /-- The bytes of sections, by name. -/
  images : List (String × Bytes)
  deriving DecidableEq, Repr

namespace Capture

/-- How a tool ends that is asked for what was not kept. -/
def unknown : Ending := ⟨[], Utf8.encode "nothing was captured\n", .code 1⟩

/-- A listing is printed again. -/
def reply : Option Bytes → Ending
  | some listing => ⟨listing, [], .code 0⟩
  | none => unknown

/-- Sections that were kept are copied. -/
def copier (c : Capture) : Copier where
  image name := (c.images.lookup name).getD []
  fault name := if (c.images.lookup name).isSome then none else some ⟨unknown, false⟩
  unwritable := ⟨[], Utf8.encode "cannot write\n", .code 1⟩

/-- The programs that tell what was kept. -/
def shelf (c : Capture) (toolchain : Toolchain) : Shelf := fun name =>
  if name = Path.ofText (toolchain.tool "readelf") then
    c.attributes.map fun listing => .printer fun _ => reply (some listing)
  else if name = Path.ofText (toolchain.tool "objdump") then
    if c.symbolTable.isNone && c.sectionHeaders.isNone then none
    else some (.printer fun args => reply (if args.contains "-t" then c.symbolTable else c.sectionHeaders))
  else if name = Path.ofText (toolchain.tool "objcopy") then some c.copier.run
  else none

end Capture
end FaultPlan
