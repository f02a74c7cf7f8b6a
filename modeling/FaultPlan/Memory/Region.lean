/-
  Memory regions of the target: where flash and RAM begin and how long they are.
-/

namespace FaultPlan

/-- The two regions that a simulation needs. -/
inductive RegionKind where
  | flash
  | ram
  deriving DecidableEq, Repr

/-- The name under which the memory configuration lists the region. -/
def RegionKind.name : RegionKind → String
  | .flash => "flash"
  | .ram => "ram"

def RegionKind.ofName? (name : String) : Option RegionKind :=
  if name = "flash" then some .flash else if name = "ram" then some .ram else none

/-- A contiguous region of memory. -/
structure Region where
  origin : UInt64
  length : UInt64
  deriving DecidableEq, Repr

/-- The exclusive end of the region; it stays at the last address when the sum passes it. -/
def Region.limit (r : Region) : UInt64 :=
  UInt64.ofNat (min (r.origin.toNat + r.length.toNat) (UInt64.size - 1))

example : (Region.mk 0x8000000 0x20000).limit = 0x8020000 := by decide
example : (Region.mk 0xffffffffffffff00 0x200).limit = 0xffffffffffffffff := by decide

end FaultPlan
