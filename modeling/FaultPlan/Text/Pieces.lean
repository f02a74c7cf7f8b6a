/-
  Cutting a text into pieces: words, comma-separated items, lines.

  `pieces p` cuts at every character that satisfies `p` and keeps empty pieces, so that nothing but
  the cut characters is lost.  Words are the non-empty pieces between blanks, items the trimmed
  non-empty pieces between commas.  Lines follow their own rule: a line ends at a line feed, one
  carriage return directly before it belongs to the ending, and what follows the last line feed is
  a line only if it is not empty.
-/
import FaultPlan.Text.Blank

namespace FaultPlan.Text

/-! ## Pieces -/

/-- The pieces between the characters or bytes that satisfy `p`, empty ones included.  There is one
    piece more than there are such characters. -/
def pieces {α : Type} (p : α → Bool) : List α → List (List α)
  | [] => [[]]
  | c :: cs =>
    if p c then [] :: pieces p cs
    else match pieces p cs with
      | [] => [[c]]
      | w :: ws => (c :: w) :: ws

/-- Words are the maximal runs of characters that are no blanks. -/
def words (s : String) : List String :=
  ((pieces isBlank s.toList).filter (! ·.isEmpty)).map String.ofList

/-- Items stand between commas; blanks around an item and empty items do not count. -/
def items (s : String) : List String :=
  (((pieces (· == ',') s.toList).map trimChars).filter (! ·.isEmpty)).map String.ofList

example : words "  flash\t0x0  0x10\u2003xr " = ["flash", "0x0", "0x10", "xr"] := by decide
example : words " \t " = [] := by decide
example : items " CONTENTS, ALLOC,,LOAD ," = ["CONTENTS", "ALLOC", "LOAD"] := by decide

/-! ## Lines -/

/-- The lines of a text, without their endings. -/
def lineChars : List Char → List (List Char)
  | [] => []
  | '\n' :: cs => [] :: lineChars cs
  | '\r' :: '\n' :: cs => [] :: lineChars cs
  | c :: cs =>
    match lineChars cs with
    | [] => [[c]]
    | l :: ls => (c :: l) :: ls

/-- The lines of a text: `\n` and `\r\n` end a line, a lone `\r` is part of it. -/
def lines (s : String) : List String := (lineChars s.toList).map String.ofList

example : lines "a\n\nb\n" = ["a", "", "b"] := by decide
example : lines "a\r\nb\r\r\nc\r" = ["a", "b\r", "c\r"] := by decide
example : lines "" = [] := by decide

/-! ## Openings -/

/-- Tells whether the text begins with `head`. -/
def startsWith (head s : String) : Bool := head.toList.isPrefixOf s.toList

/-- What follows `head` at the beginning of the text, if it begins with it. -/
def dropHead? (head s : String) : Option String :=
  if startsWith head s then some (String.ofList (s.toList.drop head.toList.length)) else none

/-- What follows the first occurrence of `needle` in the text, if there is one. -/
def afterFirst? (needle : List Char) : List Char → Option (List Char)
  | [] => if needle.isEmpty then some [] else none
  | c :: cs =>
    if needle.isPrefixOf (c :: cs) then some ((c :: cs).drop needle.length)
    else afterFirst? needle cs

example : startsWith "--" "--halt" = true ∧ startsWith "--" "-h" = false := by decide
example : dropHead? "--only-section=" "--only-section=.text" = some ".text" := by decide
example : afterFirst? "b:".toList "ab:b:c".toList = some "b:c".toList := by decide

end FaultPlan.Text
