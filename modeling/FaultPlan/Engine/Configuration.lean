/-
  Configurations: everything that the engine is told about a firmware image, and its written forms.

  A configuration is written as argument groups in a fixed order: start, halts, ignore ranges,
  flash, RAM, instruction set, sections, and the time limit if there is one.  The groups' tokens
  are the engine's argument list; `line` sets them on one line, `optionLines` starts a new line at
  every token that looks like an option.  Arguments are texts, so that the path of a blob stands
  among them as it is displayed.
-/
import FaultPlan.Engine.Group
import FaultPlan.Memory.Layout
import FaultPlan.Section.Blob

namespace FaultPlan

structure Configuration where
  isa : Isa
  layout : Layout
  start : UInt64
  halts : List HaltPoint
  ignores : List IgnoreRange
  blobs : List SectionBlob
  /-- The engine's limit in clock cycles. -/
  timeout : Option UInt64
  deriving DecidableEq, Repr

namespace Configuration

open Engine (Group)

/-- The groups of the configuration, in the order in which they are written. -/
def groups (c : Configuration) : List Group :=
  Group.start c.start :: c.halts.map Group.halt ++ c.ignores.map Group.ignore
    ++ [Group.flash c.layout.flash, Group.ram c.layout.ram, Group.isa c.isa]
    ++ c.blobs.map (fun b => Group.load b.path.display b.address)
    ++ c.timeout.toList.map Group.timeout

/-- The engine's argument list. -/
def arguments (c : Configuration) : List String := c.groups.flatMap Group.tokens

/-- The argument list on one line. -/
def line (c : Configuration) : String := " ".intercalate c.arguments

end Configuration

/-- Tokens grouped into lines: one that starts with `--` begins a line, others go on with it. -/
def optionLines : List String → List String
  | [] => []
  | token :: rest =>
    match rest, optionLines rest with
    | next :: _, l :: ls =>
      if Text.startsWith "--" next then token :: l :: ls else (token ++ " " ++ l) :: ls
    | _, ls => token :: ls

example : optionLines ["--start", "0x10", "--armv7m", "--halt", "w", "0x20"]
    = ["--start 0x10", "--armv7m", "--halt w 0x20"] := by decide

end FaultPlan
