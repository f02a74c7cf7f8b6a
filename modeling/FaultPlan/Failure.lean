/-
  Failures: everything that can keep a derivation from succeeding, and the text of each.

  A failure is a cause.  The one place that words it is `message`, built from the messages of the
  narrower causes: a tool that exited unsuccessfully (`ToolFailure`), build metadata that cannot be
  had (`MetadataFailure`), an engine argument list that the engine would refuse (`ArgumentFault`).
-/
import FaultPlan.Files.Fault
import FaultPlan.Memory.Region
import FaultPlan.Number.Hex

namespace FaultPlan

/-! ## External tools -/

/-- A tool that ran and did not succeed, with everything that it printed. -/
structure ToolFailure where
  command : String
  /-- The exit code, or none when a signal ended the tool. -/
  code : Option Int
  stdout : String
  stderr : String
  deriving DecidableEq, Repr

def ToolFailure.message (f : ToolFailure) : String :=
  match f.code with
  | some code => "`" ++ f.command ++ "` exited with status " ++ toString code
  | none => "`" ++ f.command ++ "` was terminated by a signal"

/-- Why a listing, or the bytes of a section, could not be had. -/
inductive MetadataFailure where
  /-- The tool could not be started. -/
  | spawn (tool : String) (cause : IoFault)
  /-- The tool ran and failed. -/
  | toolFailed (failure : ToolFailure)
  | read (path : String) (cause : IoFault)
  /-- A section header whose size or addresses are not hexadecimal. -/
  | malformedHeader (line : String)
  deriving DecidableEq, Repr

def MetadataFailure.message : MetadataFailure → String
  | .spawn tool cause => "failed to run " ++ tool ++ ": " ++ cause.message
  | .toolFailed failure => failure.message
  | .read path cause => "failed to read " ++ path ++ ": " ++ cause.message
  | .malformedHeader line => "malformed section header line: " ++ line

/-! ## Engine arguments -/

/-- Why the engine refuses an argument list. -/
inductive ArgumentFault where
  | missingOperand (option : String)
  | badNumber (token : String)
  | emptyIgnore (lower upper : UInt64)
  | unknownOption (option : String)
  | noEntryPoint
  | noEndAddress
  | noRam
  | noFlash
  deriving DecidableEq, Repr

def ArgumentFault.message : ArgumentFault → String
  | .missingOperand option => "missing operand for '" ++ option ++ "'"
  | .badNumber token => "invalid number '" ++ token ++ "'"
  | .emptyIgnore lower upper =>
    "empty ignore range " ++ Hex.render lower ++ ".." ++ Hex.render upper
  | .unknownOption option => "unknown option '" ++ option ++ "'"
  | .noEntryPoint => "no entry point given"
  | .noEndAddress => "no end address given"
  | .noRam => "no RAM given"
  | .noFlash => "no FLASH given"

/-! ## Derivations -/

/-- The key under which ELF attributes name the processor. -/
def cpuNameTag : String := "Tag_CPU_name"

/-- Why no configuration could be derived, or the engine not run with it. -/
inductive Failure where
  /-- The attributes do not name a processor. -/
  | missingMetadata
  | unsupportedArchitecture (cpuName : String)
  | missingRegion (kind : RegionKind)
  | missingStart (name : String)
  /-- None of the halt symbols occurs; they are listed as they were asked for. -/
  | missingHalt (names : List String)
  | toolFailed (failure : ToolFailure)
  | metadata (failure : MetadataFailure)
  | invalidArguments (fault : ArgumentFault)
  | engineLaunch (path : String) (cause : IoFault)
  | io (cause : IoFault)
  deriving DecidableEq, Repr

/-- A failed tool is a failure of its own; all else that keeps metadata away stays grouped. -/
def Failure.ofMetadata : MetadataFailure → Failure
  | .toolFailed failure => .toolFailed failure
  | failure => .metadata failure

def Failure.message : Failure → String
  | .missingMetadata => "'" ++ cpuNameTag ++ "' is missing in the ELF attributes"
  | .unsupportedArchitecture cpuName => cpuName ++ " is not an ARMv6-M or ARMv7-M binary"
  | .missingRegion kind => kind.name ++ " region could not be found in map file"
  | .missingStart name => "start symbol '" ++ name ++ "' could not be found in the symbol table"
  | .missingHalt names =>
    "no halt symbol (" ++ ", ".intercalate names ++ ") could be found in the symbol table"
  | .toolFailed failure => "external tool failed: " ++ failure.message
  | .metadata failure => "metadata error: " ++ failure.message
  | .invalidArguments fault => "invalid engine arguments: " ++ fault.message
  | .engineLaunch path cause => "failed to launch engine " ++ path ++ ": " ++ cause.message
  | .io cause => "IO error: " ++ cause.message

end FaultPlan
