/-
  The engine's view of its command line.

  Of an option that is given several times the last one counts, except for those that accumulate:
  halts, symbols, sections and ignore ranges.  The engine needs a start, a halt, and RAM and flash
  of some length, and asks for them in that order once the whole list has been read.
-/
import FaultPlan.Engine.Group

namespace FaultPlan.Engine

structure Arguments where
  start : UInt64
  halts : List HaltPoint
  symbols : List (String × UInt64)
  sections : List (String × UInt64)
  flash : Region
  ram : Region
  ignores : List IgnoreRange
  /-- The limit in clock cycles, 0 when there is none. -/
  timeout : UInt64
  isa : Isa
  deriving DecidableEq, Repr

namespace Group

def start? : Group → Option UInt64
  | .start address => some address
  | _ => none

def halt? : Group → Option HaltPoint
  | .halt point => some point
  | _ => none

def symbol? : Group → Option (String × UInt64)
  | .symbol name address => some (name, address)
  | _ => none

def load? : Group → Option (String × UInt64)
  | .load path address => some (path, address)
  | _ => none

def flash? : Group → Option Region
  | .flash region => some region
  | _ => none

def ram? : Group → Option Region
  | .ram region => some region
  | _ => none

def ignore? : Group → Option IgnoreRange
  | .ignore range => some range
  | _ => none

def timeout? : Group → Option UInt64
  | .timeout cycles => some cycles
  | _ => none

def isa? : Group → Option Isa
  | .isa i => some i
  | _ => none

end Group

/-- The last value that the groups give for something. -/
def last? {α : Type} (pick : Group → Option α) (groups : List Group) : Option α :=
  (groups.filterMap pick).getLast?

namespace Arguments

/-- What the groups mean together, if nothing that the engine needs is missing. -/
def ofGroups (groups : List Group) : Except ArgumentFault Arguments :=
  let halts := groups.filterMap Group.halt?
  let flash := (last? Group.flash? groups).getD ⟨0, 0⟩
  let ram := (last? Group.ram? groups).getD ⟨0, 0⟩
  match last? Group.start? groups with
  | none => .error .noEntryPoint
  | some start =>
    if halts.isEmpty then .error .noEndAddress
    else if ram.length = 0 then .error .noRam
    else if flash.length = 0 then .error .noFlash
    else .ok {
      start, halts, flash, ram
      symbols := groups.filterMap Group.symbol?
      sections := groups.filterMap Group.load?
      ignores := groups.filterMap Group.ignore?
      timeout := (last? Group.timeout? groups).getD 0
      isa := (last? Group.isa? groups).getD .armv7m }

/-- The arguments that a token list spells. -/
def parse (tokens : List String) : Except ArgumentFault Arguments :=
  readGroups tokens >>= ofGroups

end Arguments
end FaultPlan.Engine
