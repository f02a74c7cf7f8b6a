/-
  Paths and names, as the system has them: bytes, which need not spell a text.

  A text is a path by its UTF-8 bytes.  The other way there are two: `text?` gives the text that a
  path spells, if it spells one, and `display` gives a text for every path, with U+FFFD for what is
  ill-formed.
-/
import FaultPlan.Text.Utf8

namespace FaultPlan

/-- Names with slashes between them. -/
abbrev Path := Bytes

/-- A name in a directory. -/
abbrev Name := Bytes

namespace Path

/-- The path that a text spells. -/
@[coe] def ofText (text : String) : Path := Utf8.encode text

instance : Coe String Path := ⟨ofText⟩

/-- The text that spells the path, if there is one. -/
def text? (path : Path) : Option String := Utf8.decode? path

/-- The path as it is shown to a person. -/
def display (path : Path) : String := Utf8.decodeLossy path

example : text? ("aé" : Path) = some "aé" ∧ text? (("out" : Path) ++ [0xFF]) = none := by decide
example : display (("out" : Path) ++ [0xFF]) = "out\uFFFD" := by decide

end Path
end FaultPlan
