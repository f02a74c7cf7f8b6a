/-
  Blank characters: the separators of every listing this library reads.

  The listings are Unicode text, so a blank is any character with the White_Space property and not
  only an ASCII one.  `isBlank` is that property as a test on the code point, `trim` drops blanks
  at both ends of a text.
-/

namespace FaultPlan.Text

/-- White_Space, the 25 code points of the Unicode property: tab to carriage return, space, next
    line, no-break space, ogham space, the quads and spaces of general punctuation, the two
    separators, and the narrow, mathematical and ideographic spaces. -/
def isBlank (c : Char) : Bool :=
  (0x09 ≤ c.toNat && c.toNat ≤ 0x0D) || c.toNat == 0x20 || c.toNat == 0x85 || c.toNat == 0xA0
    || c.toNat == 0x1680 || (0x2000 ≤ c.toNat && c.toNat ≤ 0x200A) || c.toNat == 0x2028
    || c.toNat == 0x2029 || c.toNat == 0x202F || c.toNat == 0x205F || c.toNat == 0x3000

/-- Blanks are dropped from the front of the text. -/
def trimStart (cs : List Char) : List Char := cs.dropWhile isBlank

/-- Blanks are dropped from the back of the text. -/
def trimEnd (cs : List Char) : List Char := (cs.reverse.dropWhile isBlank).reverse

/-- Blanks are dropped at both ends; those between other characters stay. -/
def trimChars (cs : List Char) : List Char := trimEnd (trimStart cs)

/-- The text without the blanks at its ends. -/
def trim (s : String) : String := String.ofList (trimChars s.toList)

example : trim "\t \"7-M\" \u2003\r" = "\"7-M\"" := by decide
example : trim "a\u00a0b" = "a\u00a0b" := by decide
example : trim " \u3000 " = "" := by decide

end FaultPlan.Text
