/-
  Listings and section bytes by way of the binary tools of a bench.

  Three of the listings are what a tool prints; the linker map is a file.  A tool that does not
  succeed fails the listing with everything that it printed, as text.  A call is logged when its tool
  has been started.
-/
import FaultPlan.Analysis
import FaultPlan.Bench.Program
import FaultPlan.Section.Extraction
import FaultPlan.Toolchain

namespace FaultPlan

/-- The files of a build and the tools that read them. -/
structure Build where
  toolchain : Toolchain
  elf : Path
  map : Path
  deriving DecidableEq, Repr

namespace Build

/-- The tool and the arguments that print a listing. -/
def command? (b : Build) : Listing → Option (String × List Path)
  | .attributes => some (b.toolchain.tool "readelf", ["-A", b.elf])
  | .symbolTable => some (b.toolchain.tool "objdump", [b.elf, "-t"])
  | .sectionHeaders => some (b.toolchain.tool "objdump", [b.elf, "-h"])
  | .linkerMap => none

/-- The tool that copies sections. -/
def copier (b : Build) : String := b.toolchain.tool "objcopy"

/-- The arguments that copy a section into a file. -/
def copyArgs (b : Build) (sectionName : String) (destination : Path) : List Path :=
  ["-O", "binary", ("--only-section=" ++ sectionName : String), b.elf, destination]

/-- What a tool printed, if it succeeded. -/
def outputOf (tool : String) (args : List Path) (e : Ending) : Except MetadataFailure String :=
  let stdout := Utf8.decodeLossy e.stdout
  if e.status.success then .ok stdout
  else .error (.toolFailed ⟨" ".intercalate (tool :: args.map Path.display), e.status.code?, stdout,
    Utf8.decodeLossy e.stderr⟩)

/-- The listings of the build. -/
def source (b : Build) (bench : Bench) (t : FileTree) : Source where
  answer listing :=
    match b.command? listing with
    | none => ⟨[], (t.readText b.map).mapError (.read b.map.display)⟩
    | some (tool, args) =>
      match bench.ask t tool args with
      | .error cause => ⟨[], .error (.spawn tool cause)⟩
      | .ok ending => ⟨[⟨tool, args, none⟩], outputOf tool args ending⟩

/-- Sections of the build are copied by the copier. -/
def extractor (b : Build) (bench : Bench) : Extractor where
  extract _ sectionName destination t :=
    let args := b.copyArgs sectionName destination
    match bench.copy t b.copier args with
    | .error cause => ⟨t, [], .error (.spawn b.copier cause)⟩
    | .ok (t', ending) =>
      ⟨t', [⟨b.copier, args, none⟩], (outputOf b.copier args ending).map fun _ => ()⟩

end Build
end FaultPlan
