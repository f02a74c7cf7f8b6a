/-
  Section blobs: the files that hold the raw bytes of loaded sections.
-/
import FaultPlan.Files.Route
import FaultPlan.Section.Header

namespace FaultPlan

/-- How the name of every blob file begins; the section's name follows. -/
def blobStem : String := "code_section"

/-- The path of the blob file for a section. -/
def blobPath (dir : Path) (sectionName : String) : Path := joinPath dir (blobStem ++ sectionName : String)

/-- Tells whether a file of that name is taken for a blob.  A name that is no text never is. -/
def isBlobName (name : Name) : Bool :=
  match Path.text? name with
  | some text => Text.startsWith blobStem text
  | none => false

/-- A loaded section with the file that holds its bytes. -/
structure SectionBlob where
  name : String
  address : UInt64
  path : Path
  deriving DecidableEq, Repr

/-- The blob of a section in a directory. -/
def LoadableSection.blobIn (dir : Path) (s : LoadableSection) : SectionBlob :=
  ⟨s.name, s.address, blobPath dir s.name⟩

example : blobPath "out" ".text" = "out/code_section.text" := by decide
example : blobPath "out/" ".a/b" = "out/code_section.a/b" := by decide
example : blobPath "" ".bss" = "code_section.bss" := by decide
example : isBlobName "code_section.bss" ∧ ¬ isBlobName (Path.ofText "code_section" ++ [0xFF]) := by decide

end FaultPlan
