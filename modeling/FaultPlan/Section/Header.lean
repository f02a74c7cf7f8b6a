/-
  Section headers, read by position from a header listing.

  A section takes two lines: a header line of seven words, the second of which is the name and
  starts with a dot, and after it, whatever it holds, the line of its flags.  Other lines are
  skipped.  Sections that take up memory when the image runs are loaded, at their run-time address.
-/
import FaultPlan.Failure
import FaultPlan.Text.Pieces

namespace FaultPlan

structure SectionHeader where
  name : String
  size : UInt64
  /-- Run-time address. -/
  vma : UInt64
  /-- Load address. -/
  lma : UInt64
  fileOffset : UInt64
  flags : List String
  deriving DecidableEq, Repr

/-- A section that the engine must load. -/
structure LoadableSection where
  name : String
  address : UInt64
  deriving DecidableEq, Repr

/-- What a line is that stands where a header may stand. -/
inductive HeaderLine where
  | skipped
  | malformed
  /-- A header, still without flags. -/
  | header (h : SectionHeader)

namespace HeaderLine

/-- Size, the two addresses and the file offset must be hexadecimal. -/
def ofWords (name size vma lma fileOffset : String) : HeaderLine :=
  match Hex.parse size, Hex.parse vma, Hex.parse lma, Hex.parse fileOffset with
  | some s, some v, some l, some f => .header ⟨name, s, v, l, f, []⟩
  | _, _, _, _ => .malformed

def read (line : String) : HeaderLine :=
  match Text.words line with
  | [_, name, size, vma, lma, fileOffset, _] =>
    if Text.startsWith "." name then ofWords name size vma lma fileOffset else .skipped
  | _ => .skipped

end HeaderLine

namespace SectionHeader

/-- The headers among the lines.  The first malformed one fails the whole listing. -/
def ofLines : List String → Except MetadataFailure (List SectionHeader)
  | [] => .ok []
  | line :: rest =>
    match HeaderLine.read line with
    | .skipped => ofLines rest
    | .malformed => .error (.malformedHeader line)
    | .header h =>
      match rest with
      | [] => .ok [h]
      | flags :: rest => (ofLines rest).map ({ h with flags := Text.items flags } :: ·)

/-- The headers of a listing. -/
def ofListing (listing : String) : Except MetadataFailure (List SectionHeader) :=
  ofLines (Text.lines listing)

/-- Tells whether the section takes up memory when the image runs. -/
def isAllocated (h : SectionHeader) : Bool := h.flags.contains "ALLOC"

/-- Tells whether the section has to be loaded: it is allocated and not empty. -/
def isLoadable (h : SectionHeader) : Bool := h.isAllocated && h.size != 0

/-- The sections to load, in the order of their headers. -/
def loadable (headers : List SectionHeader) : List LoadableSection :=
  (headers.filter isLoadable).map fun h => ⟨h.name, h.vma⟩

example : (ofListing "Sections:\n 0 .text 70 8000000 8000000 10000 2**2\n  CONTENTS, ALLOC\n").map
    loadable = .ok [⟨".text", 0x8000000⟩] := by rfl
example : ofListing "0 .a 1 2 3 4 5\n1 .b zz 2 3 4 5\n1 .c zz 2 3 4 5"
    = .error (.malformedHeader "1 .c zz 2 3 4 5") := by rfl

end SectionHeader
end FaultPlan
