/-
  The summary of an analysed image, as it is shown to a person.
-/
import FaultPlan.Analysis
import FaultPlan.Files.Path
import FaultPlan.Number.Decimal
import FaultPlan.Toolchain

namespace FaultPlan.Summary

/-- A label, set to ten characters, and its value. -/
def row (label value : String) : String :=
  "  " ++ label ++ String.ofList (List.replicate (10 - label.length) ' ') ++ " " ++ value ++ "\n"

/-- A heading, set off by an empty line. -/
def heading (title : String) : String := "\n" ++ title ++ "\n"

/-- The bounds of a region and its length in bytes. -/
def region (r : Region) : String :=
  Hex.render r.origin ++ ".." ++ Hex.render r.limit ++ " (" ++ Decimal.render r.length ++ " bytes)"

/-- The line that tells of success. -/
def success (elf : Path) : String := "✓ " ++ elf.display ++ " is ready for fault simulation\n"

/-- The line that tells of a failure. -/
def failure (message : String) : String := "✗ " ++ message ++ "\n"

/-- Everything that is known before sections are extracted, in the parts in which it is written. -/
def ofAnalysis (elf : Path) (toolchain : Toolchain) (a : Analysis) : List String :=
  [success elf, heading "Target",
      row "toolchain" toolchain.stem, row "isa" a.isa.name,
      row "flash" (region a.layout.flash), row "ram" (region a.layout.ram),
      heading "Symbols", row "start" (Hex.render a.survey.start)]
    ++ a.survey.halts.map (fun h => row "halt" (Hex.render h.address ++ " " ++ h.label))
    ++ a.survey.ignores.map (fun r =>
        row "ignore" (Hex.render r.lower ++ ".." ++ Hex.render r.upper))
    ++ heading "Sections" :: a.sections.map fun s => row s.name (Hex.render s.address)

example : row "isa" "ARMv7-M" = "  isa        ARMv7-M\n" := by decide
example : row ".a_long_name" "0x0" = "  .a_long_name 0x0\n" := by decide
example : region ⟨1, 1⟩ = "0x1..0x2 (1 bytes)" := by decide

end FaultPlan.Summary
