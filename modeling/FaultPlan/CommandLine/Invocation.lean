/-
  Invocations: what an accepted command line asks for.
-/
import FaultPlan.Files.Path
import FaultPlan.Options
import FaultPlan.Toolchain

namespace FaultPlan

inductive OutputFormat where
  /-- The whole argument list on one line. -/
  | line
  /-- One option with its operands on each line. -/
  | lines
  deriving DecidableEq, Repr

namespace OutputFormat

def name : OutputFormat → String
  | .line => "line"
  | .lines => "lines"

def ofName? (name : String) : Option OutputFormat :=
  if name = "line" then some .line else if name = "lines" then some .lines else none

end OutputFormat

/-- The firmware image and the symbols that steer its derivation. -/
structure Target where
  elf : Path
  map : Path
  start : String
  /-- Halt symbols as they were given, repetitions included. -/
  halts : List String
  ignores : List String
  toolchain : Toolchain
  timeout : Option UInt64
  deriving DecidableEq, Repr

def Target.options (t : Target) : Options :=
  (((Options.new t.start).withHalts t.halts).withIgnores t.ignores).withTimeout t.timeout

inductive Action where
  /-- Extract sections and print the engine's argument list. -/
  | derive (outDir : Path) (format : OutputFormat)
  /-- Derive into a scratch directory and run the engine. -/
  | run (engine : Path)
  /-- Analyse without extracting anything. -/
  | check
  deriving DecidableEq, Repr

structure Invocation where
  verbose : Bool
  silent : Bool
  target : Target
  action : Action
  deriving DecidableEq, Repr

end FaultPlan
