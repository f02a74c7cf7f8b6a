/-
  The instruction set, classified from an ELF attribute listing.

  The listing names the processor after the first `Tag_CPU_name:`; the name is the rest of that
  line, trimmed.  Only the two quoted names of the M profile that the engine emulates are accepted.
-/
import FaultPlan.Failure
import FaultPlan.Text.Pieces

namespace FaultPlan

/-- Instruction sets that the engine emulates. -/
inductive Isa where
  | armv6m
  | armv7m
  deriving DecidableEq, Repr

namespace Isa

def name : Isa → String
  | .armv6m => "ARMv6-M"
  | .armv7m => "ARMv7-M"

/-- The engine option that selects the instruction set. -/
def flag : Isa → String
  | .armv6m => "--armv6m"
  | .armv7m => "--armv7m"

/-- The processor's name as the attributes spell it, quotes included. -/
def cpuName? (attributes : String) : Option String :=
  (Text.afterFirst? (cpuNameTag ++ ":").toList attributes.toList).map fun rest =>
    String.ofList (Text.trimChars (rest.takeWhile fun c => c != '\r' && c != '\n'))

/-- The instruction set of the binary with these attributes. -/
def classify (attributes : String) : Except Failure Isa :=
  match cpuName? attributes with
  | none => .error .missingMetadata
  | some "\"6-M\"" => .ok .armv6m
  | some "\"7-M\"" => .ok .armv7m
  | some other => .error (.unsupportedArchitecture other)

example : classify "  Tag_CPU_name: \"7-M\"\n  Tag_CPU_name: \"6-M\"\n" = .ok .armv7m := by rfl
example : classify "Tag_CPU_name:\r\n" = .error (.unsupportedArchitecture "") := by rfl
example : classify "Tag_CPU_arch: v7\n" = .error .missingMetadata := by rfl

end Isa
end FaultPlan
